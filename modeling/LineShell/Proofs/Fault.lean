import LineShell.Proofs.Cut
import LineShell.Proofs.Grammar

/-!
# The first fault of a line

A token of a segment is at fault (`Fault`) if it is a redirection symbol with no word behind
it, or an argument when `limit` arguments stand before it. A segment is faulty
(`SegmentFault`) by the first of its tokens that is at fault, and if none is, in a line with
pipes, by having no argument at all. `error_first` : the error of a line that has no command
is the fault of its first faulty segment. The text behind the pipe that ends this segment
does not matter, and nothing is ever reported as left over.
-/

namespace LineShell.Grammar

variable {limit : Nat} {t file : Token} {ts before after seg : List Token} {e : SyntaxError}

/-! ## Faults -/

/-- What is wrong with the token `t` of a segment, with `before` in front of it and `after`
behind it. -/
inductive Fault (limit : Nat) (before : List Token) (t : Token) (after : List Token) :
    SyntaxError → Prop
  /-- A redirection symbol that is not followed by a word. -/
  | file (symbol : Symbol) (position : Nat) (ht : t.isRedirection = true)
      (hk : t.kind = .symbol symbol) (hf : ∀ file ∈ after.head?, file.isWord = false) :
      Fault limit before t after (.missingFile symbol position)
  /-- A word that is no file of a redirection, with `limit` such words taken. -/
  | argument (ht : t.isWord = true) (hb : ∀ u ∈ before.getLast?, u.isRedirection = false)
      (hl : limit ≤ (arguments before).length) :
      Fault limit before t after (.tooManyArguments limit)

/-- No token of the segment is at fault. -/
def Faultless (limit : Nat) (seg : List Token) : Prop :=
  ∀ before t after e, seg = before ++ t :: after → ¬Fault limit before t after e

/-- The first token of the segment that is at fault has the fault `e`. -/
def FirstFault (limit : Nat) (seg : List Token) (e : SyntaxError) : Prop :=
  ∃ before t after, seg = before ++ t :: after ∧ Fault limit before t after e ∧
    ∀ before' t' after' e', seg = before' ++ t' :: after' → before'.length < before.length →
      ¬Fault limit before' t' after' e'

/-- What is wrong with a segment of a line, which has pipes or not. -/
inductive SegmentFault (limit : Nat) (piped : Prop) (seg : List Token) : SyntaxError → Prop
  | token {e : SyntaxError} (h : FirstFault limit seg e) : SegmentFault limit piped seg e
  | program (position : Nat) (h : Faultless limit seg) (hp : piped) (ha : arguments seg = []) :
      SegmentFault limit piped seg (.missingCommand position)

/-! ## Parts of a segment -/

theorem withPrevious_append (previous : Option Token) (ts us : List Token) :
    withPrevious previous (ts ++ us) =
      withPrevious previous ts ++ withPrevious (ts.getLast?.or previous) us := by
  induction ts generalizing previous with
  | nil => rfl
  | cons t ts ih =>
    have hlast : (t :: ts).getLast?.or previous = ts.getLast?.or (some t) := by
      rw [List.getLast?_cons]
      cases ts.getLast? <;> rfl
    rw [List.cons_append, withPrevious_cons, ih, hlast]
    rfl

theorem arguments_append (h : ∀ u ∈ ts.getLast?, u.isRedirection = false) (us : List Token) :
    arguments (ts ++ us) = arguments ts ++ arguments us := by
  have hany : (ts.getLast?.or none).any Token.isRedirection = false := by
    cases hl : ts.getLast? with
    | none => rfl
    | some u => exact h u hl
  rw [← filterMap_argument? hany us, arguments, withPrevious_append, List.filterMap_append]
  rfl

/-- Tokens that have their files do not end in a redirection symbol. -/
theorem FilesNamed.getLast? (hn : FilesNamed ts) : ∀ u ∈ ts.getLast?, u.isRedirection = false := by
  intro u hu
  obtain ⟨init, rfl⟩ := List.getLast?_eq_some_iff.mp hu
  by_contra hr
  obtain ⟨file, rest, heq, -⟩ := hn init u [] rfl (by simpa using hr)
  cases heq

theorem FilesNamed.append {us : List Token} (hn : FilesNamed ts) (hu : FilesNamed us) :
    FilesNamed (ts ++ us) := by
  intro before symbol after heq hs
  rcases List.append_eq_append_iff.mp heq with ⟨x, rfl, rfl⟩ | ⟨x, rfl, hx⟩
  · exact hu x symbol after rfl hs
  · cases x with
    | nil => exact hu [] symbol after (by simpa using hx.symm) hs
    | cons y x =>
      obtain ⟨rfl, rfl⟩ := List.cons.inj hx
      obtain ⟨file, rest, rfl, hf⟩ := hn before symbol x rfl hs
      exact ⟨file, rest ++ us, rfl, hf⟩

/-! ## The first fault -/

/-- Where the files are named and the arguments few, no token is at fault. -/
theorem not_fault (hn : FilesNamed before) (hl : (arguments before).length ≤ limit)
    {rest before' after' : List Token} (h : before ++ rest = before' ++ t :: after')
    (hlt : before'.length < before.length) : ¬Fault limit before' t after' e := by
  obtain ⟨inner, rfl, rfl⟩ : ∃ inner, before = before' ++ t :: inner ∧ after' = inner ++ rest := by
    rcases List.append_eq_append_iff.mp h with ⟨x, rfl, -⟩ | ⟨x, rfl, hx⟩
    · rw [List.length_append] at hlt
      omega
    · cases x with
      | nil => simp at hlt
      | cons y x =>
        obtain ⟨rfl, rfl⟩ := List.cons.inj hx
        exact ⟨x, rfl, rfl⟩
  rintro (⟨symbol, position, ht, hk, hf⟩ | ⟨ht, hb, hlim⟩)
  · obtain ⟨file, more, rfl, hw⟩ := hn before' t inner rfl ht
    have := hf file rfl
    rw [hw] at this
    cases this
  · rw [arguments_append hb, arguments_cons_word ht, List.length_append, List.length_cons] at hl
    omega

theorem faultless (hn : FilesNamed seg) (hl : (arguments seg).length ≤ limit) :
    Faultless limit seg := by
  rintro before t after e rfl
  refine not_fault hn hl (List.append_nil _) ?_
  simp

theorem Fault.first (hn : FilesNamed before) (hl : (arguments before).length ≤ limit)
    (h : Fault limit before t after e) : FirstFault limit (before ++ t :: after) e :=
  ⟨before, t, after, rfl, h, fun _ _ _ _ heq hlt => not_fault hn hl heq hlt⟩

theorem Complete.not_segmentFault {piped : Prop} (h : Complete limit seg) :
    ¬SegmentFault limit piped seg e := by
  obtain ⟨hn, hl, ha⟩ := h
  rintro (⟨before, t, after, heq, hf, -⟩ | ⟨position, -, -, hnil⟩)
  · exact faultless hn hl before t after e heq hf
  · exact ha hnil

theorem SegmentFault.of_piped {piped piped' : Prop} (h : SegmentFault limit piped seg e)
    (hp : piped → piped') : SegmentFault limit piped' seg e := by
  cases h with
  | token h => exact .token h
  | program position h hpiped ha => exact .program position h (hp hpiped) ha

theorem FirstFault.ne_leftover {rest : Bytes} {position : Nat} (h : FirstFault limit seg e) :
    e ≠ .leftover rest position := by
  obtain ⟨before, t, after, -, hf, -⟩ := h
  cases hf <;> simp

theorem SegmentFault.ne_leftover {piped : Prop} {rest : Bytes} {position : Nat}
    (h : SegmentFault limit piped seg e) : e ≠ .leftover rest position := by
  cases h with
  | token h => exact h.ne_leftover
  | program => simp

/-! ## Reading a segment -/

/-- Reading on behind the tokens `done`, which hold the words read so far, fails by the first
fault of the segment. -/
theorem firstFault_segmentFrom (s : Segment) (c : Cursor) (done : List Token)
    (hn : FilesNamed done) (ha : arguments done = s.words) (hl : s.words.length ≤ limit)
    (h : (Parser.segmentFrom limit s c).1 = .error e) :
    FirstFault limit (done ++ untilPipe c.tokens) e := by
  fun_induction Parser.segmentFrom limit s c generalizing done with
  | case1 s c d hc => cases h
  | case2 s c t d hc hk hlt ih =>
    have hw : t.isWord = true := by simp [Token.isWord, hk]
    have hone : FilesNamed [t] :=
      (filesNamed_cons (not_isRedirection_of_isWord hw)).mpr filesNamed_nil
    rw [Cursor.tokens_of_next_some hc, untilPipe_cons (not_isPipe_of_isWord hw), List.append_cons]
    refine ih _ (hn.append hone) ?_ ?_ h
    · rw [arguments_append hn.getLast?, ha, arguments_cons_word hw]
      rfl
    · simp only [List.length_append, List.length_singleton]
      omega
  | case3 s c t d hc hk hlt =>
    have hw : t.isWord = true := by simp [Token.isWord, hk]
    cases h
    rw [Cursor.tokens_of_next_some hc, untilPipe_cons (not_isPipe_of_isWord hw)]
    refine Fault.first hn (ha ▸ hl) (.argument hw hn.getLast? ?_)
    rw [ha]
    omega
  | case4 s c t d hc symbol hk hd => cases h
  | case5 s c t d hc symbol hk dir hd e hc' =>
    have hr := isRedirection_of_direction? hk hd
    cases h
    rw [Cursor.tokens_of_next_some hc, Cursor.tokens_of_next_none hc',
      untilPipe_cons (not_isPipe_of_isRedirection hr)]
    refine Fault.first hn (ha ▸ hl) (.file symbol _ hr hk ?_)
    simp [untilPipe]
  | case6 s c t d hc symbol hk dir hd file e hc' hw ih =>
    have hr := isRedirection_of_direction? hk hd
    have hboth : FilesNamed [t, file] := (filesNamed_cons_file hr hw).mpr filesNamed_nil
    rw [Cursor.tokens_of_next_some hc, Cursor.tokens_of_next_some hc',
      untilPipe_cons (not_isPipe_of_isRedirection hr), untilPipe_cons (not_isPipe_of_isWord hw)]
    have hrest := ih (done ++ [t, file]) (hn.append hboth) ?_ hl h
    · simpa using hrest
    · rw [arguments_append hn.getLast?, ha, arguments_cons_redirection hr hw]
      exact List.append_nil _
  | case7 s c t d hc symbol hk dir hd file e hc' hw =>
    have hr := isRedirection_of_direction? hk hd
    cases h
    rw [Cursor.tokens_of_next_some hc, Cursor.tokens_of_next_some hc',
      untilPipe_cons (not_isPipe_of_isRedirection hr)]
    refine Fault.first hn (ha ▸ hl) (.file symbol _ hr hk fun u hu => ?_)
    by_cases hp : file.isPipe = true
    · rw [untilPipe_cons_pipe hp] at hu
      cases hu
    · rw [untilPipe_cons (by simpa using hp)] at hu
      cases hu
      simpa using hw

theorem firstFault_segment {c : Cursor} (h : (Parser.segment limit c).1 = .error e) :
    FirstFault limit (untilPipe c.tokens) e :=
  firstFault_segmentFrom _ c [] filesNamed_nil rfl (Nat.zero_le _) h

/-! ## Reading a line -/

/-- The segment `seg` is the first of the list at fault, and `e` its fault. -/
def FirstFaulty (limit : Nat) (segs : List (List Token)) (e : SyntaxError) : Prop :=
  ∃ before seg after, segs = before ++ seg :: after ∧ (∀ s ∈ before, Complete limit s) ∧
    SegmentFault limit True seg e

theorem FirstFaulty.cons {segs : List (List Token)} (hc : Complete limit seg)
    (h : FirstFaulty limit segs e) : FirstFaulty limit (seg :: segs) e := by
  obtain ⟨before, s, after, rfl, hb, hs⟩ := h
  exact ⟨seg :: before, s, after, rfl, List.forall_mem_cons.mpr ⟨hc, hb⟩, hs⟩

theorem firstFaulty_pipeline (left : Segment) (c : Cursor) (hc : fromPipe c.tokens = c.tokens)
    (hn : FilesNamed seg) (hl : (arguments seg).length ≤ limit) (hw : left.words = arguments seg)
    (h : (Parser.pipeline limit left c).1 = .error e) :
    FirstFaulty limit (seg :: (segments c.tokens).tail) e := by
  fun_induction Parser.pipeline limit left c generalizing seg with
  | case1 left c he =>
    cases h
    refine ⟨[], seg, _, rfl, by simp, .program _ (faultless hn hl) trivial ?_⟩
    rw [← hw, List.isEmpty_iff.mp he]
  | case2 left c he hp c' hnext => cases h
  | case3 left c he hp t c' hnext e' c'' hs =>
    have hcomplete : Complete limit seg := ⟨hn, hl, hw ▸ by simpa using he⟩
    cases h
    rw [tail_segments_of_peek hp hnext, segments_eq]
    exact .cons hcomplete
      ⟨[], _, _, rfl, by simp, .token (firstFault_segment (congrArg Prod.fst hs))⟩
  | case4 left c he hp t c' hnext right c'' hs e' d hr ih =>
    have hcomplete : Complete limit seg := ⟨hn, hl, hw ▸ by simpa using he⟩
    have hseg := segment_outcome limit c'
    rw [hs] at hseg
    obtain ⟨hnamed, hlen, rfl, htokens⟩ := hseg
    cases h
    rw [tail_segments_of_peek hp hnext, segments_eq]
    refine .cons hcomplete ?_
    rw [← htokens]
    exact ih (by rw [htokens, fromPipe_fromPipe]) hnamed (by simpa using hlen) rfl
      (congrArg Prod.fst hr)
  | case5 left c he hp t c' hnext right c'' hs r d hr ih => cases h
  | case6 left c he hp => cases h

/-- A command fails by the fault of a first segment, or, in a line with pipes, by that of
the first faulty one. -/
theorem fault_command {c : Cursor} (h : (Parser.command limit c).1 = .error e) :
    FirstFault limit (untilPipe c.tokens) e ∨
      (∃ t ∈ c.tokens, t.isPipe = true) ∧ FirstFaulty limit (segments c.tokens) e := by
  have hseg := segment_outcome limit c
  unfold Parser.command at h
  rcases hs : Parser.segment limit c with ⟨e' | first, c'⟩ <;> simp only [hs] at h hseg
  · cases h
    exact .inl (firstFault_segment (congrArg Prod.fst hs))
  · obtain ⟨hnamed, hlen, rfl, htokens⟩ := hseg
    split at h
    · rename_i hp
      obtain ⟨t, us, hts, -⟩ := Cursor.peek_symbol_iff.mp hp
      have hne : fromPipe c.tokens ≠ [] := by rw [← htokens, hts]; simp
      refine .inr ⟨fromPipe_ne_nil_iff.mp hne, ?_⟩
      have := firstFaulty_pipeline _ c'.skip
        (by rw [Cursor.tokens_skip, htokens, fromPipe_fromPipe]) hnamed (by simpa using hlen) rfl h
      rwa [Cursor.tokens_skip, htokens, ← segments_eq] at this
    · cases h

/-- Nothing is left behind a command, so a line fails as its command does. -/
theorem error_command_of_line {c : Cursor} (h : (Parser.line limit c).1 = .error e) :
    (Parser.command limit c).1 = .error e := by
  have hcmd := command_outcome limit c
  unfold Parser.line at h
  rcases hc : Parser.command limit c with ⟨e' | r, c'⟩ <;> rw [hc] at h hcmd
  · exact h
  · simp only [Cursor.atEnd_iff.mpr hcmd.2.2, if_true] at h
    cases h

/-! ## Text behind the pipe -/

/-- Behind separators, a cursor stands where its first token begins. -/
theorem position_skip {c : Cursor} (h : c.tokens = t :: ts) : c.skip.position = t.start := by
  have ht : c.skip.token? = some t := by rw [← Cursor.head?_tokens, h]; rfl
  unfold Cursor.token? at ht
  split at ht
  · cases ht
  · split at ht
    · cases ht
      rfl
    · split at ht <;> cases ht
      rfl

theorem skip_of_next {c c' : Cursor} (h : c.next = (some t, c')) : c'.skip = c' := by
  unfold Cursor.next at h
  split at h <;> cases h
  exact Cursor.skip_skip _

/-- Two cursors in one place that give the same tokens up to `last`. -/
def Agree (front : List Token) (last : Token) (c d : Cursor) : Prop :=
  c.position = d.position ∧
    ∃ back back', c.tokens = front ++ last :: back ∧ d.tokens = front ++ last :: back'

section Agree

variable {front : List Token} {last : Token} {c d : Cursor}

/-- Behind separators, cursors with the same tokens up to `last` are in one place. -/
theorem agree_skip {back back' : List Token} (hc : c.tokens = front ++ last :: back)
    (hd : d.tokens = front ++ last :: back') : Agree front last c.skip d.skip := by
  refine ⟨?_, back, back', by rw [Cursor.tokens_skip, hc], by rw [Cursor.tokens_skip, hd]⟩
  cases front with
  | nil => rw [position_skip hc, position_skip hd]
  | cons f front => rw [position_skip hc, position_skip hd]

theorem Agree.skip (h : Agree front last c d) : Agree front last c.skip d.skip := by
  obtain ⟨-, back, back', hc, hd⟩ := h
  exact agree_skip hc hd

theorem Agree.tokens_ne_nil (h : Agree front last c d) : c.tokens ≠ [] := by
  obtain ⟨-, back, back', hc, -⟩ := h
  simp [hc]

/-- The next token of one cursor is that of the other : the last one, or one before it, and
then they still agree. -/
theorem Agree.next {c' : Cursor} (h : Agree front last c d) (hn : c.next = (some t, c')) :
    ∃ d', d.next = (some t, d') ∧
      (front = [] ∧ t = last ∨ ∃ front', front = t :: front' ∧ Agree front' last c' d') := by
  obtain ⟨-, back, back', hc, hd⟩ := h
  rw [Cursor.tokens_of_next_some hn] at hc
  cases front with
  | nil =>
    obtain ⟨d', hd', -⟩ := Cursor.next_of_tokens_cons hd
    obtain ⟨rfl, -⟩ := List.cons.inj hc
    exact ⟨d', hd', .inl ⟨rfl, rfl⟩⟩
  | cons f front =>
    obtain ⟨d', hd', htd⟩ := Cursor.next_of_tokens_cons hd
    obtain ⟨rfl, htc⟩ := List.cons.inj hc
    have hagree := agree_skip htc htd
    rw [skip_of_next hn, skip_of_next hd'] at hagree
    exact ⟨d', hd', .inr ⟨front, rfl, hagree⟩⟩

/-- Two readings that fail alike, or succeed alike with cursors that agree. -/
inductive Alike {α : Type} (front : List Token) (last : Token) :
    Except SyntaxError α × Cursor → Except SyntaxError α × Cursor → Prop
  | error (e : SyntaxError) (c d : Cursor) : Alike front last (.error e, c) (.error e, d)
  | ok (x : α) {c d : Cursor} (h : Agree front last c d) : Alike front last (.ok x, c) (.ok x, d)

theorem segmentFrom_word {s : Segment} (hn : c.next = (some t, d)) (hk : t.kind = .word) :
    Parser.segmentFrom limit s c =
      if s.words.length < limit then
        Parser.segmentFrom limit { s with words := s.words ++ [t.text] } d
      else (.error (.tooManyArguments limit), d) := by
  rw [Parser.segmentFrom_eq, hn]
  simp only [hk]

theorem segmentFrom_pipe {s : Segment} (hn : c.next = (some t, d)) (ht : t.isPipe = true) :
    Parser.segmentFrom limit s c = (.ok s, c.skip) := by
  have hk : t.kind = .symbol .pipe := by simpa [Token.isPipe] using ht
  rw [Parser.segmentFrom_eq, hn]
  simp only [hk]
  rfl

theorem segmentFrom_redirection {s : Segment} {symbol : Symbol} {dir : Direction} {d' : Cursor}
    (hn : c.next = (some t, d)) (hk : t.kind = .symbol symbol) (hd : symbol.direction? = some dir)
    (hn' : d.next = (some file, d')) :
    Parser.segmentFrom limit s c =
      if file.isWord then
        Parser.segmentFrom limit
          { s with redirections := s.redirections ++ [{ direction := dir, path := file.text }] } d'
      else (.error (.missingFile symbol file.start), d') := by
  rw [Parser.segmentFrom_eq, hn]
  simp only [hk, hd, hn']

/-- A segment is read alike from cursors that agree up to a pipe. -/
theorem alike_segmentFrom (s : Segment) (hp : last.isPipe = true) (h : Agree front last c d) :
    Alike (fromPipe front) last (Parser.segmentFrom limit s c) (Parser.segmentFrom limit s d) := by
  fun_induction Parser.segmentFrom limit s c generalizing front d with
  | case1 s c c' hc => exact absurd (Cursor.tokens_of_next_none hc) h.tokens_ne_nil
  | case2 s c t c' hc hk hlt ih =>
    obtain ⟨d', hd, ⟨-, rfl⟩ | ⟨front', rfl, h'⟩⟩ := h.next hc
    · simp [Token.isPipe, hk] at hp
    · have hw : t.isWord = true := by simp [Token.isWord, hk]
      rw [segmentFrom_word hd hk, if_pos hlt, fromPipe_cons (not_isPipe_of_isWord hw)]
      exact ih h'
  | case3 s c t c' hc hk hlt =>
    obtain ⟨d', hd, -⟩ := h.next hc
    rw [segmentFrom_word hd hk, if_neg hlt]
    exact .error _ _ _
  | case4 s c t c' hc symbol hk hdir =>
    have ht : t.isPipe = true := by cases symbol <;> simp_all [Token.isPipe, Symbol.direction?]
    obtain ⟨d', hd, hcase⟩ := h.next hc
    have hfrom : fromPipe front = front := by
      rcases hcase with ⟨rfl, -⟩ | ⟨front', rfl, -⟩
      · rfl
      · exact fromPipe_cons_pipe ht
    rw [segmentFrom_pipe hd ht, hfrom]
    exact .ok s h.skip
  | case5 s c t c' hc symbol hk dir hdir e hc' =>
    obtain ⟨d', hd, ⟨-, rfl⟩ | ⟨front', rfl, h'⟩⟩ := h.next hc
    · rw [not_isPipe_of_isRedirection (isRedirection_of_direction? hk hdir)] at hp
      cases hp
    · exact absurd (Cursor.tokens_of_next_none hc') h'.tokens_ne_nil
  | case6 s c t c' hc symbol hk dir hdir file e hc' hw ih =>
    have hr := isRedirection_of_direction? hk hdir
    obtain ⟨d', hd, ⟨-, rfl⟩ | ⟨front', rfl, h'⟩⟩ := h.next hc
    · rw [not_isPipe_of_isRedirection hr] at hp
      cases hp
    · obtain ⟨d'', hd', ⟨-, rfl⟩ | ⟨front'', rfl, h''⟩⟩ := h'.next hc'
      · rw [not_isPipe_of_isWord hw] at hp
        cases hp
      · rw [segmentFrom_redirection hd hk hdir hd', if_pos hw,
          fromPipe_cons (not_isPipe_of_isRedirection hr), fromPipe_cons (not_isPipe_of_isWord hw)]
        exact ih h''
  | case7 s c t c' hc symbol hk dir hdir file e hc' hw =>
    obtain ⟨d', hd, ⟨-, rfl⟩ | ⟨front', rfl, h'⟩⟩ := h.next hc
    · rw [not_isPipe_of_isRedirection (isRedirection_of_direction? hk hdir)] at hp
      cases hp
    · obtain ⟨d'', hd', -⟩ := h'.next hc'
      rw [segmentFrom_redirection hd hk hdir hd', if_neg hw]
      exact .error _ _ _

theorem alike_segment (limit : Nat) (hp : last.isPipe = true) (h : Agree front last c d) :
    Alike (fromPipe front) last (Parser.segment limit c) (Parser.segment limit d) := by
  rw [Parser.segment, Parser.segment, ← h.1]
  exact alike_segmentFrom _ hp h

theorem Agree.peek (h : Agree front last c d) (s : Symbol) :
    (c.peek [s.byte]).1 = true ↔ (d.peek [s.byte]).1 = true := by
  obtain ⟨-, back, back', hc, hd⟩ := h
  rw [Cursor.peek_symbol_iff, Cursor.peek_symbol_iff, hc, hd]
  cases front <;> simp

theorem untilPipe_append (hp : last.isPipe = true) (front back : List Token) :
    untilPipe (front ++ last :: back) = untilPipe front := by
  induction front with
  | nil => exact untilPipe_cons_pipe hp
  | cons f front ih =>
    by_cases hf : f.isPipe = true
    · rw [List.cons_append, untilPipe_cons_pipe hf, untilPipe_cons_pipe hf]
    · have hf' : f.isPipe = false := by simpa using hf
      rw [List.cons_append, untilPipe_cons hf', untilPipe_cons hf', ih]

/-- Segments behind pipes fail alike from cursors that agree up to a pipe, unless all of those
before this pipe are complete. -/
theorem error_pipeline_of_agree (left : Segment) (hp : last.isPipe = true)
    (hf : fromPipe front = front) (h : Agree front last c d)
    (he : (Parser.pipeline limit left c).1 = .error e) :
    (Parser.pipeline limit left d).1 = .error e ∨
      left.words ≠ [] ∧ ∀ s ∈ (segments front).tail, Complete limit s := by
  fun_induction Parser.pipeline limit left c generalizing front d with
  | case1 left c hw =>
    rw [Parser.pipeline, if_pos hw]
    exact .inl he
  | case2 left c hw hpk c' hn => cases he
  | case3 left c hw hpk t c' hn e' c'' hs =>
    obtain ⟨d', hd, ⟨rfl, -⟩ | ⟨front', rfl, h'⟩⟩ := h.next hn
    · exact .inr ⟨by simpa using hw, by simp [segments]⟩
    · have halike := alike_segment limit hp h'
      rw [hs] at halike
      generalize hs' : Parser.segment limit d' = r at halike
      cases halike
      cases he
      left
      rw [Parser.pipeline_eq, if_neg hw, if_pos ((h.peek .pipe).mp hpk), hd, hs']
  | case4 left c hw hpk t c' hn right c'' hs e' x hr ih =>
    obtain ⟨d', hd, ⟨rfl, -⟩ | ⟨front', rfl, h'⟩⟩ := h.next hn
    · exact .inr ⟨by simpa using hw, by simp [segments]⟩
    · have hseg := segment_outcome limit c'
      have halike := alike_segment limit hp h'
      rw [hs] at halike hseg
      generalize hs' : Parser.segment limit d' = r at halike
      cases halike with
      | @ok _ _ d'' h'' =>
        rcases ih (fromPipe_fromPipe _) h'' (by rw [hr]; exact he) with hr' | ⟨hwr, hall⟩
        · left
          rw [Parser.pipeline_eq, if_neg hw, if_pos ((h.peek .pipe).mp hpk), hd, hs']
          obtain ⟨x', hx⟩ : ∃ x', Parser.pipeline limit right d'' = (.error e, x') :=
            ⟨_, Prod.ext hr' rfl⟩
          simp only [hx]
        · have ht : t.isPipe = true := isPipe_of_peek hpk hn
          obtain ⟨hnamed, hlen, rfl, -⟩ := hseg
          obtain ⟨-, back, -, htc, -⟩ := h'
          rw [htc, untilPipe_append hp] at hnamed hlen hwr
          rw [tail_segments_cons ht, segments_eq, List.forall_mem_cons]
          exact .inr ⟨by simpa using hw, ⟨hnamed, by simpa using hlen, hwr⟩, hall⟩
  | case5 left c hw hpk t c' hn right c'' hs r x hr ih => cases he
  | case6 left c hw hpk => cases he

/-- A command fails alike from cursors that agree up to a pipe, unless every segment before
this pipe is complete. -/
theorem error_command_of_agree (hp : last.isPipe = true) (h : Agree front last c d)
    (he : (Parser.command limit c).1 = .error e) :
    (Parser.command limit d).1 = .error e ∨ ∀ s ∈ segments front, Complete limit s := by
  have hseg := segment_outcome limit c
  have halike := alike_segment limit hp h
  unfold Parser.command at he ⊢
  rcases hs : Parser.segment limit c with ⟨e' | first, c'⟩ <;> simp only [hs] at he hseg halike
  all_goals
    generalize Parser.segment limit d = r at halike ⊢
    cases halike
  · exact .inl he
  · rename_i d' h'
    have hpeek := h'.peek .pipe
    by_cases hc : (c'.peek [Symbol.pipe.byte]).1 = true
    · simp only [hc, hpeek.mp hc, if_true] at he ⊢
      have hfrom := fromPipe_fromPipe front
      rcases error_pipeline_of_agree first hp hfrom h'.skip he with hd | ⟨hw, hall⟩
      · exact .inl hd
      · obtain ⟨hnamed, hlen, rfl, -⟩ := hseg
        obtain ⟨-, back, -, htc, -⟩ := h
        rw [htc, untilPipe_append hp] at hnamed hlen hw
        rw [segments_eq, List.forall_mem_cons]
        exact .inr ⟨⟨hnamed, by simpa using hlen, hw⟩, hall⟩
    · simp only [hc] at he
      cases he

end Agree

/-! ## The error of a line -/

/-- A segment that is not the last is followed by a pipe. -/
theorem exists_pipe_of_segments {before after : List (List Token)}
    (h : segments ts = before ++ seg :: after) (ha : after ≠ []) :
    ∃ front pipe back, ts = front ++ pipe :: back ∧ pipe.isPipe = true ∧
      segments front = before ++ [seg] := by
  induction before generalizing ts with
  | nil =>
    rw [segments_eq] at h
    obtain ⟨rfl, rfl⟩ := List.cons.inj h
    cases hf : fromPipe ts with
    | nil => simp [hf, segments] at ha
    | cons p back =>
      obtain ⟨heq, hp⟩ := eq_untilPipe_append hf
      exact ⟨untilPipe ts, p, back, heq, hp, segments_untilPipe ts⟩
  | cons b before ih =>
    rw [segments_eq, List.cons_append] at h
    obtain ⟨rfl, htail⟩ := List.cons.inj h
    cases hf : fromPipe ts with
    | nil => simp [hf, segments] at htail
    | cons p us =>
      obtain ⟨heq, hp⟩ := eq_untilPipe_append hf
      rw [hf, tail_segments_cons hp] at htail
      obtain ⟨front, pipe, back, rfl, hpipe, hfront⟩ := ih htail
      refine ⟨untilPipe ts ++ p :: front, pipe, back, by simpa using heq, hpipe, ?_⟩
      rw [segments_untilPipe_append hp, hfront, List.cons_append]

/-- A line with a faulty segment in front of a pipe fails in the same way whatever stands
behind the pipe. -/
theorem parse_take_append {line : Bytes} {front back : List Token}
    (hts : tokenize line = front ++ t :: back) (ht : t.isPipe = true)
    (hs : ¬∀ s ∈ segments front, Complete limit s) (he : parse limit line = .error e)
    (other : Bytes) : parse limit (line.take t.stop ++ other) = .error e := by
  obtain ⟨back', hts'⟩ := tokenize_take_append hts (by simpa [Token.isPipe] using ht) other
  have hagree : Agree front t (Cursor.ofLine line) (Cursor.ofLine (line.take t.stop ++ other)) :=
    ⟨rfl, back, back', hts, hts'⟩
  have hd := (error_command_of_agree ht hagree (error_command_of_line he)).resolve_right hs
  unfold parse Parser.line
  rcases hc : Parser.command limit (Cursor.ofLine (line.take t.stop ++ other)) with ⟨e' | r, d⟩ <;>
    rw [hc] at hd
  · exact hd
  · cases hd

/-- The error of a line that has no command is that of its first faulty segment : of the
first token at fault in it, or if there is none, and the line has pipes, that it has no
argument. If a pipe stands behind this segment, any other text can stand behind the pipe
and the error is the same. However often a line has been read on, with whatever limits,
nothing is reported as left over. -/
theorem error_first (limit : Nat) (line : Bytes) :
    (∀ e, parse limit line = .error e →
      ∃ before seg after, segments (tokenize line) = before ++ seg :: after ∧
        (∀ s ∈ before, ∀ e', ¬SegmentFault limit (∃ t ∈ tokenize line, t.isPipe = true) s e') ∧
        SegmentFault limit (∃ t ∈ tokenize line, t.isPipe = true) seg e ∧
        (after ≠ [] → ∃ front pipe back, tokenize line = front ++ pipe :: back ∧
          pipe.isPipe = true ∧ segments front = before ++ [seg] ∧
          ∀ other, parse limit (line.take pipe.stop ++ other) = .error e)) ∧
    ∀ (earlier : List Nat) rest position,
      (Parser.line limit (earlier.foldl (fun c l => (Parser.line l c).2) (Cursor.ofLine line))).1 ≠
        .error (.leftover rest position) := by
  constructor
  · intro e he
    have hfirst : ∃ before seg after, segments (tokenize line) = before ++ seg :: after ∧
        (∀ s ∈ before, Complete limit s) ∧
        SegmentFault limit (∃ t ∈ tokenize line, t.isPipe = true) seg e := by
      rcases fault_command (error_command_of_line he) with h | ⟨hp, before, seg, after, heq, hb, hs⟩
      · exact ⟨[], _, _, segments_eq _, by simp, .token h⟩
      · refine ⟨before, seg, after, heq, hb, ?_⟩
        exact hs.of_piped fun _ => hp
    obtain ⟨before, seg, after, heq, hb, hs⟩ := hfirst
    refine ⟨before, seg, after, heq, fun s hmem e' => (hb s hmem).not_segmentFault, hs, ?_⟩
    intro hafter
    obtain ⟨front, pipe, back, hts, hp, hfront⟩ := exists_pipe_of_segments heq hafter
    refine ⟨front, pipe, back, hts, hp, hfront, parse_take_append hts hp (fun hall => ?_) he⟩
    exact (hall seg (by simp [hfront])).not_segmentFault hs
  · intro earlier rest position h
    rcases fault_command (error_command_of_line h) with h | ⟨-, before, seg, after, -, -, hs⟩
    · exact h.ne_leftover rfl
    · exact hs.ne_leftover rfl

/-- A second argument comes before a redirection without its file, and before an empty
segment. -/
theorem error_first_crowded :
    parse 1 (Utf8.ofString "a < f b > | | c") = .error (.tooManyArguments 1) ∧
      ∃ before seg after, segments (tokenize (Utf8.ofString "a < f b > | | c")) =
          before ++ seg :: after ∧
        SegmentFault 1 (∃ t ∈ tokenize (Utf8.ofString "a < f b > | | c"), t.isPipe = true) seg
          (.tooManyArguments 1) ∧
        (after ≠ [] → ∃ pipe ∈ tokenize (Utf8.ofString "a < f b > | | c"), pipe.isPipe = true ∧
          ∀ other, parse 1 ((Utf8.ofString "a < f b > | | c").take pipe.stop ++ other) =
            .error (.tooManyArguments 1)) := by
  have he : parse 1 (Utf8.ofString "a < f b > | | c") = .error (.tooManyArguments 1) := by
    decide +kernel
  obtain ⟨before, seg, after, heq, -, hs, hcut⟩ :=
    (error_first 1 (Utf8.ofString "a < f b > | | c")).1 _ he
  refine ⟨he, before, seg, after, heq, hs, fun hafter => ?_⟩
  obtain ⟨front, pipe, back, hts, hp, -, hother⟩ := hcut hafter
  exact ⟨pipe, by rw [hts]; simp, hp, hother⟩

end LineShell.Grammar
