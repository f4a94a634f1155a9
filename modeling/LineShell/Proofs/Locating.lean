import LineShell.Proofs.Resuming

/-!
# Where an error is

A syntax error says at which place of the line something is missing. A line goes on with the
tokens `ts` at `placeOf stop ts` : where the first of them begins, or at its end if there is none.

A file is missing where the line goes on behind the symbol that wants it (`unfollowed_command`), and
a command where it goes on in front of the empty segment (`programless_command`). Only for the first
segment that is the start of the line, also if the line begins with separators.

`error_position` says this for every line, and that no other error is at a separator.
-/

namespace LineShell

/-- The position that a syntax error reports. -/
def SyntaxError.position? : SyntaxError → Option Nat
  | .missingFile _ position => some position
  | .missingCommand position => some position
  | .tooManyArguments _ => none
  | .leftover _ position => some position

/-- Where a line with its end at `stop` goes on with the tokens `ts`. -/
def placeOf (stop : Nat) (ts : List Token) : Nat := (ts.head?.map Token.start).getD stop

@[simp]
theorem placeOf_nil (stop : Nat) : placeOf stop [] = stop := rfl

@[simp]
theorem placeOf_cons (stop : Nat) (t : Token) (ts : List Token) :
    placeOf stop (t :: ts) = t.start := rfl

namespace Cursor

variable {c c' d : Cursor} {t : Token}

theorem Reaches.stop_eq (h : c.Reaches d) : d.stop = c.stop := by
  obtain ⟨n, hn, rfl⟩ := h
  exact stop_advance hn

/-- Behind separators a cursor stands where the line goes on. -/
theorem position_skip_eq (c : Cursor) : c.skip.position = placeOf c.stop c.tokens := by
  cases hts : c.tokens with
  | nil =>
    have hrest : c.skip.rest = [] := tokens_eq_nil_iff.mp hts
    have hstop := stop_skip c
    rw [stop, hrest] at hstop
    exact hstop
  | cons t ts => exact Grammar.position_skip hts

theorem start_of_token? (h : c.token? = some t) : t.start = c.position := by
  unfold token? at h
  split at h
  · cases h
  · split at h
    · cases h
      rfl
    · split at h <;> cases h
      rfl

/-- Every token stands somewhere in the line, behind separators. -/
theorem exists_reaches_of_mem_tokens (h : t ∈ c.tokens) :
    ∃ d, c.Reaches d ∧ d.skip.token? = some t := by
  fun_induction tokens c with
  | case1 c d hn => cases h
  | case2 c u d hn ih =>
    rcases List.mem_cons.mp h with rfl | h
    · refine ⟨c, c.reaches_refl, ?_⟩
      rw [← head?_tokens, tokens_of_next_some hn, List.head?_cons]
    · obtain ⟨e, he, ht⟩ := ih h
      exact ⟨e, (reaches_of_next hn).trans he, ht⟩

end Cursor

/-- No token begins with a separator. -/
theorem not_isSeparator_at_start {line : Bytes} {t : Token} (h : t ∈ tokenize line) :
    ∀ b ∈ (line.drop t.start).head?, isSeparator b = false := by
  obtain ⟨d, hd, ht⟩ := Cursor.exists_reaches_of_mem_tokens h
  have hskip := (Cursor.reaches_ofLine_iff.mp (hd.trans d.reaches_skip)).2
  intro b hb
  refine Cursor.not_isSeparator_of_head?_skip (c := d) ?_
  rw [hskip, ← Cursor.start_of_token? ht]
  exact hb

theorem not_isSeparator_at_placeOf {line : Bytes} {front ts : List Token}
    (h : tokenize line = front ++ ts) :
    ∀ b ∈ (line.drop (placeOf line.length ts)).head?, isSeparator b = false := by
  cases ts with
  | nil => simp
  | cons t ts =>
    refine not_isSeparator_at_start (t := t) ?_
    rw [h]
    simp

namespace Grammar

variable {limit stop : Nat} {t file : Token} {ts done seg front back : List Token}
  {symbol : Symbol} {position : Nat} {e : SyntaxError} {c : Cursor}

/-! ## A missing file -/

/-- The first redirection symbol of `ts` that no word follows is `symbol`, and behind it the line
goes on at `position`. -/
def Unfollowed (stop : Nat) (ts : List Token) (symbol : Symbol) (position : Nat) : Prop :=
  ∃ front t back, ts = front ++ t :: back ∧ t.kind = .symbol symbol ∧ t.isRedirection = true ∧
    FilesNamed front ∧ (∀ file ∈ back.head?, file.isWord = false) ∧ position = placeOf stop back

theorem Unfollowed.append (hn : FilesNamed done) (h : Unfollowed stop ts symbol position) :
    Unfollowed stop (done ++ ts) symbol position := by
  obtain ⟨front, t, back, rfl, hk, hr, hf, hb, hp⟩ := h
  exact ⟨done ++ front, t, back, by simp, hk, hr, hn.append hf, hb, hp⟩

/-- Reading a segment fails for a missing file where the file is missing. -/
theorem unfollowed_segmentFrom (s : Segment) (c : Cursor)
    (h : (Parser.segmentFrom limit s c).1 = .error (.missingFile symbol position)) :
    Unfollowed c.stop c.tokens symbol position := by
  fun_induction Parser.segmentFrom limit s c with
  | case1 s c d hc => cases h
  | case2 s c t d hc hk hl ih =>
    have hw : t.isWord = true := by simp [Token.isWord, hk]
    have hone : FilesNamed [t] :=
      (filesNamed_cons (not_isRedirection_of_isWord hw)).mpr filesNamed_nil
    rw [Cursor.tokens_of_next_some hc, ← Cursor.stop_of_next hc]
    exact (ih h).append hone
  | case3 s c t d hc hk hl => cases h
  | case4 s c t d hc symbol hk hd => cases h
  | case5 s c t d hc symbol hk dir hd e hc' =>
    have hr := isRedirection_of_direction? hk hd
    cases h
    have hend := Cursor.tokens_of_next_none hc'
    refine ⟨[], t, d.tokens, Cursor.tokens_of_next_some hc, hk, hr, filesNamed_nil, ?_, ?_⟩
    · simp [hend]
    · rw [Cursor.eq_skip_of_next_none hc', Cursor.position_skip_eq, Cursor.stop_of_next hc]
  | case6 s c t d hc symbol hk dir hd file e hc' hw ih =>
    have hr := isRedirection_of_direction? hk hd
    have hboth : FilesNamed [t, file] := (filesNamed_cons_file hr hw).mpr filesNamed_nil
    rw [Cursor.tokens_of_next_some hc, Cursor.tokens_of_next_some hc', ← Cursor.stop_of_next hc,
      ← Cursor.stop_of_next hc']
    exact (ih h).append hboth
  | case7 s c t d hc symbol hk dir hd file e hc' hw =>
    have hr := isRedirection_of_direction? hk hd
    cases h
    have hts := Cursor.tokens_of_next_some hc'
    refine ⟨[], t, d.tokens, Cursor.tokens_of_next_some hc, hk, hr, filesNamed_nil, ?_, ?_⟩
    · simpa [hts] using hw
    · rw [hts, placeOf_cons]

/-- What a segment that has been read leaves behind it. -/
theorem tokens_eq_of_segment {s : Segment} {d : Cursor}
    (h : Parser.segment limit c = (.ok s, d)) :
    c.tokens = untilPipe c.tokens ++ d.tokens ∧ d.stop = c.stop := by
  have hout := segment_outcome limit c
  have hreach := Parser.reaches_segment limit c
  rw [h] at hout hreach
  refine ⟨?_, hreach.stop_eq⟩
  rw [hout.2.2.2]
  exact List.takeWhile_append_dropWhile.symm

theorem not_isRedirection_of_isPipe (h : t.isPipe = true) : t.isRedirection = false := by
  cases hr : t.isRedirection with
  | false => rfl
  | true =>
    rw [not_isPipe_of_isRedirection hr] at h
    cases h

theorem filesNamed_pipe (h : t.isPipe = true) : FilesNamed [t] :=
  (filesNamed_cons (not_isRedirection_of_isPipe h)).mpr filesNamed_nil

theorem unfollowed_pipeline (left : Segment) (c : Cursor)
    (h : (Parser.pipeline limit left c).1 = .error (.missingFile symbol position)) :
    Unfollowed c.stop c.tokens symbol position := by
  fun_induction Parser.pipeline limit left c with
  | case1 left c he => cases h
  | case2 left c he hp c' hn => cases h
  | case3 left c he hp t c' hn e c'' hs =>
    cases h
    have hseg := unfollowed_segmentFrom _ c' (congrArg Prod.fst hs)
    rw [Cursor.tokens_of_next_some hn, ← Cursor.stop_of_next hn]
    exact hseg.append (filesNamed_pipe (isPipe_of_peek hp hn))
  | case4 left c he hp t c' hn right c'' hs e d hr ih =>
    have hout := segment_outcome limit c'
    rw [hs] at hout
    obtain ⟨hts, hstop⟩ := tokens_eq_of_segment hs
    have hrest := (ih ((congrArg Prod.fst hr).trans h)).append hout.1
    rw [Cursor.tokens_of_next_some hn, ← Cursor.stop_of_next hn, hts, ← hstop]
    exact hrest.append (filesNamed_pipe (isPipe_of_peek hp hn))
  | case5 left c he hp t c' hn right c'' hs r d hr ih => cases h
  | case6 left c he hp => cases h

/-- A line fails for a missing file where the file is missing. -/
theorem unfollowed_command
    (h : (Parser.command limit c).1 = .error (.missingFile symbol position)) :
    Unfollowed c.stop c.tokens symbol position := by
  unfold Parser.command at h
  rcases hs : Parser.segment limit c with ⟨e | first, c'⟩ <;> simp only [hs] at h
  · cases h
    exact unfollowed_segmentFrom _ c (congrArg Prod.fst hs)
  · have hout := segment_outcome limit c
    rw [hs] at hout
    obtain ⟨hts, hstop⟩ := tokens_eq_of_segment hs
    split at h
    · have hrest := unfollowed_pipeline first c'.skip h
      rw [Cursor.stop_skip, Cursor.tokens_skip, hstop] at hrest
      rw [hts]
      exact hrest.append hout.1
    · cases h

/-! ## A missing command -/

/-- Complete segments, each with a pipe behind it. -/
def Closed (limit : Nat) (front : List Token) : Prop :=
  front = [] ∨ ∃ done pipe, front = done ++ [pipe] ∧ pipe.isPipe = true ∧
    ∀ s ∈ segments done, Complete limit s

/-- The segment `seg` between `front` and `back` is the first that has no argument, and should
have one : there is a pipe on one side of it at least. -/
structure Programless (limit : Nat) (front seg back : List Token) : Prop where
  closed : Closed limit front
  inside : ∀ t ∈ seg, t.isPipe = false
  filesNamed : FilesNamed seg
  noArgument : arguments seg = []
  behind : ∀ t ∈ back.head?, t.isPipe = true
  piped : front ≠ [] ∨ back ≠ []

theorem segments_of_not_isPipe (h : ∀ t ∈ seg, t.isPipe = false) : segments seg = [seg] :=
  List.splitOnP_eq_singleton h

theorem Closed.append (hf : Closed limit front) (hs : ∀ t ∈ seg, t.isPipe = false)
    (hc : Complete limit seg) (ht : t.isPipe = true) : Closed limit (front ++ seg ++ [t]) := by
  refine .inr ⟨front ++ seg, t, rfl, ht, ?_⟩
  rcases hf with rfl | ⟨done, pipe, rfl, hp, hall⟩
  · simpa [segments_of_not_isPipe hs] using hc
  · have hsplit : segments (done ++ [pipe] ++ seg) = segments done ++ segments seg := by
      rw [List.append_assoc]
      exact List.splitOnP_append_cons done seg hp
    rw [hsplit, segments_of_not_isPipe hs]
    intro s hmem
    rcases List.mem_append.mp hmem with h | h
    · exact hall s h
    · rwa [List.mem_singleton.mp h]

theorem isPipe_of_mem_head? (h : fromPipe ts = ts) : ∀ t ∈ ts.head?, t.isPipe = true := by
  intro t ht
  obtain ⟨us, hus⟩ := List.head?_eq_some_iff.mp ht
  exact (eq_untilPipe_append (h.trans hus)).2

theorem FirstFault.ne_missingCommand (h : FirstFault limit seg e) :
    e ≠ .missingCommand position := by
  obtain ⟨before, t, after, -, hf, -⟩ := h
  cases hf <;> simp

/-- Segments read so far fail for want of a command where the first of them without one is.
Behind `front` and the segment `seg`, from which `left` was read, the cursor is at a pipe or at
the end. -/
theorem programless_pipeline (start : Nat) (left : Segment) (c : Cursor)
    (hfrom : fromPipe c.tokens = c.tokens) (hfront : Closed limit front)
    (hpiped : front ≠ [] ∨ c.tokens ≠ []) (hseg : ∀ t ∈ seg, t.isPipe = false)
    (hn : FilesNamed seg) (hl : (arguments seg).length ≤ limit) (hw : left.words = arguments seg)
    (hstart : left.start = if front = [] then start else placeOf c.stop (seg ++ c.tokens))
    (h : (Parser.pipeline limit left c).1 = .error (.missingCommand position)) :
    ∃ front' seg' back', front ++ seg ++ c.tokens = front' ++ seg' ++ back' ∧
      Programless limit front' seg' back' ∧
      position = if front' = [] then start else placeOf c.stop (seg' ++ back') := by
  fun_induction Parser.pipeline limit left c generalizing front seg with
  | case1 left c he =>
    have hnil : arguments seg = [] := by rw [← hw, List.isEmpty_iff.mp he]
    obtain rfl : left.start = position := by simpa using h
    exact ⟨front, seg, c.tokens, rfl,
      ⟨hfront, hseg, hn, hnil, isPipe_of_mem_head? hfrom, hpiped⟩, hstart⟩
  | case2 left c he hp c' hnext => cases h
  | case3 left c he hp t c' hnext e c'' hs =>
    cases h
    exact absurd rfl (firstFault_segment (congrArg Prod.fst hs)).ne_missingCommand
  | case4 left c he hp t c' hnext right c'' hs e d hr ih =>
    have hout := segment_outcome limit c'
    rw [hs] at hout
    obtain ⟨hnamed, hlen, rfl, htokens⟩ := hout
    obtain ⟨hts, hstop⟩ := tokens_eq_of_segment hs
    have hcomplete : Complete limit seg := ⟨hn, hl, hw ▸ by simpa using he⟩
    have hplace : c'.position = placeOf c''.stop (untilPipe c'.tokens ++ c''.tokens) := by
      rw [← hts, hstop, ← Cursor.position_skip_eq, skip_of_next hnext]
    obtain ⟨front', seg', back', heq, hless, hpos⟩ :=
      ih (by rw [htokens, fromPipe_fromPipe])
        (hfront.append hseg hcomplete (isPipe_of_peek hp hnext)) (by simp)
        not_isPipe_of_mem_untilPipe hnamed (by simpa using hlen) rfl
        (by rw [if_neg (by simp)]; exact hplace) (by rw [hr]; exact h)
    have hwhole : front ++ seg ++ [t] ++ untilPipe c'.tokens ++ c''.tokens =
        front ++ seg ++ c.tokens := by
      rw [Cursor.tokens_of_next_some hnext, List.append_assoc _ _ c''.tokens, ← hts]
      simp
    rw [hwhole] at heq
    rw [hstop, Cursor.stop_of_next hnext] at hpos
    exact ⟨front', seg', back', heq, hless, hpos⟩
  | case5 left c he hp t c' hnext right c'' hs r d hr ih => cases h
  | case6 left c he hp => cases h

/-- A line fails for want of a command where its first segment without one is. -/
theorem programless_command (h : (Parser.command limit c).1 = .error (.missingCommand position)) :
    ∃ front seg back, c.tokens = front ++ seg ++ back ∧ Programless limit front seg back ∧
      position = if front = [] then c.position else placeOf c.stop (seg ++ back) := by
  unfold Parser.command at h
  rcases hs : Parser.segment limit c with ⟨e | first, c'⟩ <;> simp only [hs] at h
  · cases h
    exact absurd rfl (firstFault_segment (congrArg Prod.fst hs)).ne_missingCommand
  · have hout := segment_outcome limit c
    rw [hs] at hout
    obtain ⟨hnamed, hlen, rfl, htokens⟩ := hout
    obtain ⟨hts, hstop⟩ := tokens_eq_of_segment hs
    split at h
    · rename_i hp
      obtain ⟨t, us, hpipe, -⟩ := Cursor.peek_symbol_iff.mp hp
      have hnone : Closed limit [] := .inl rfl
      obtain ⟨front, seg, back, heq, hless, hpos⟩ :=
        programless_pipeline c.position _ c'.skip
          (by rw [Cursor.tokens_skip, htokens, fromPipe_fromPipe]) hnone
          (by rw [Cursor.tokens_skip, hpipe]; simp)
          not_isPipe_of_mem_untilPipe hnamed (by simpa using hlen) rfl
          rfl h
      rw [Cursor.tokens_skip, List.nil_append, ← hts] at heq
      rw [Cursor.stop_skip, hstop] at hpos
      exact ⟨front, seg, back, heq, hless, hpos⟩
    · cases h

/-! ## The place of an error -/

/-- The start of a line is where the line goes on unless it begins with separators. -/
theorem placeOf_tokenize_eq_zero_iff (line : Bytes) :
    placeOf line.length (tokenize line) = 0 ↔ ∀ b ∈ line.head?, isSeparator b = false := by
  have hplace := Cursor.position_skip_eq (Cursor.ofLine line)
  have hstop : (Cursor.ofLine line).stop = line.length := Nat.zero_add _
  rw [hstop] at hplace
  rw [tokenize, ← hplace]
  cases line with
  | nil => simp [Cursor.ofLine, Cursor.skip, Cursor.advance]
  | cons b r => cases hb : isSeparator b <;> simp [Cursor.ofLine, Cursor.skip, Cursor.advance, hb]

theorem parse_ne_leftover {rest line : Bytes} :
    parse limit line ≠ .error (.leftover rest position) := by
  intro h
  rcases fault_command (error_command_of_line h) with h | ⟨-, before, seg, after, -, -, hs⟩
  · exact h.ne_leftover rfl
  · exact hs.ne_leftover rfl

/-- A missing file is reported where the line goes on behind the first redirection symbol that no
word follows. A missing command is reported where the line goes on in front of the first segment
that has no argument, unless that is the first of the line : then it is reported at the start of
the line, which is in front of the segment, but not where it begins, if the line begins with
separators. No other position that is reported is that of a separator. -/
theorem error_position (limit : Nat) (line : Bytes) :
    (∀ symbol position, parse limit line = .error (.missingFile symbol position) →
      Unfollowed line.length (tokenize line) symbol position) ∧
    (∀ position, parse limit line = .error (.missingCommand position) →
      ∃ front seg back, tokenize line = front ++ seg ++ back ∧ Programless limit front seg back ∧
        position = (if front = [] then 0 else placeOf line.length (seg ++ back)) ∧
        (front = [] → (position = placeOf line.length (seg ++ back) ↔
          ∀ b ∈ line.head?, isSeparator b = false))) ∧
    ∀ e position, parse limit line = .error e → e.position? = some position →
      (∀ b ∈ (line.drop position).head?, isSeparator b = false) ∨
        e = .missingCommand 0 ∧ ∃ b ∈ line.head?, isSeparator b = true := by
  have hstop : (Cursor.ofLine line).stop = line.length := Nat.zero_add _
  have hfile : ∀ symbol position, parse limit line = .error (.missingFile symbol position) →
      Unfollowed line.length (tokenize line) symbol position := by
    intro symbol position h
    rw [← hstop]
    exact unfollowed_command (error_command_of_line h)
  have hprogram : ∀ position, parse limit line = .error (.missingCommand position) →
      ∃ front seg back, tokenize line = front ++ seg ++ back ∧ Programless limit front seg back ∧
        position = if front = [] then 0 else placeOf line.length (seg ++ back) := by
    intro position h
    rw [← hstop]
    exact programless_command (error_command_of_line h)
  refine ⟨hfile, fun position h => ?_, fun e position h hp => ?_⟩
  · obtain ⟨front, seg, back, heq, hless, hpos⟩ := hprogram position h
    refine ⟨front, seg, back, heq, hless, hpos, ?_⟩
    rintro rfl
    rw [if_pos rfl] at hpos
    rw [← placeOf_tokenize_eq_zero_iff, heq, hpos]
    exact eq_comm
  · cases e with
    | missingFile symbol place =>
      obtain rfl : place = position := by simpa [SyntaxError.position?] using hp
      obtain ⟨front, t, back, heq, -, -, -, -, rfl⟩ := hfile symbol place h
      rw [List.append_cons] at heq
      exact .inl (not_isSeparator_at_placeOf heq)
    | missingCommand place =>
      obtain rfl : place = position := by simpa [SyntaxError.position?] using hp
      obtain ⟨front, seg, back, heq, -, hpos⟩ := hprogram place h
      split at hpos
      · subst hpos
        by_cases hb : ∃ b ∈ line.head?, isSeparator b = true
        · exact .inr ⟨rfl, hb⟩
        · left
          simpa using hb
      · subst hpos
        rw [List.append_assoc] at heq
        exact .inl (not_isSeparator_at_placeOf heq)
    | tooManyArguments _ => cases hp
    | leftover rest _ => exact absurd h parse_ne_leftover

/-- Two blanks stand in front of a pipe that nothing precedes. The missing command is reported at
the first blank, and the pipe is the first token. -/
theorem not_placed_behind_blanks :
    parse 10 (Utf8.ofString "  | wc") = .error (.missingCommand 0) ∧
      placeOf 6 (tokenize (Utf8.ofString "  | wc")) = 2 ∧
      (Utf8.ofString "  | wc")[0]?.any isSeparator = true := by
  decide +kernel

end Grammar

end LineShell
