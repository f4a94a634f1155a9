import LineShell.Command.Parser
import LineShell.Proofs.Cursor
import Mathlib.Data.List.DropRight

/-!
# The grammar of a line

The parser takes tokens one by one off a cursor. Here the same is said of the whole token
list. `segments` cuts it at its pipes. In a segment every redirection symbol must have its
file behind it (`FilesNamed`); `arguments` are the words that are no files, and
`redirections` the symbols with their files. `commandOf` puts the command together.

`parse_eq_ok_iff` : a line has a command if and only if its tokens are `Grammatical`, and
then the command is `commandOf` its tokens, in which every token has its place.
-/

namespace LineShell

/-! ## What a token list says -/

namespace Token

/-- The token is a pipe. -/
def isPipe (t : Token) : Bool := t.kind = .symbol .pipe

/-- The token is a redirection symbol. -/
def isRedirection (t : Token) : Bool := t.kind = .symbol .input || t.kind = .symbol .output

/-- The redirection that a symbol and the word behind it write : `<` is for descriptor 0,
and `>` for descriptor 1. -/
def redirection? (symbol file : Token) : Option Redirection :=
  match symbol.kind, file.kind with
  | .symbol .input, .word => some ⟨.input, file.text, 0⟩
  | .symbol .output, .word => some ⟨.output, file.text, 1⟩
  | _, _ => none

end Token

/-! ## One step of the parser -/

namespace Parser

theorem segmentFrom_eq (limit : Nat) (s : Segment) (c : Cursor) :
    segmentFrom limit s c =
      match c.next with
      | (none, c') => (.ok s, c')
      | (some t, c') =>
        match t.kind with
        | .word =>
          if s.words.length < limit then
            segmentFrom limit { s with words := s.words ++ [t.text] } c'
          else (.error (.tooManyArguments limit), c')
        | .symbol symbol =>
          match symbol.direction? with
          | none => (.ok s, c.skip)
          | some d =>
            match c'.next with
            | (none, c'') => (.error (.missingFile symbol c''.position), c'')
            | (some file, c'') =>
              if file.isWord then
                segmentFrom limit
                  { s with redirections := s.redirections ++ [{ direction := d, path := file.text }] }
                  c''
              else (.error (.missingFile symbol file.start), c'') := by
  rw [segmentFrom]
  rcases c.next with ⟨_ | t, c'⟩
  · rfl
  · rcases hk : t.kind with _ | symbol
    · simp only [hk]
    · rcases hd : symbol.direction? with _ | d
      · simp only [hk, hd]
      · simp only [hk, hd]
        rcases c'.next with ⟨_ | file, c''⟩ <;> rfl

/-- No token is in the way where a pipe can be seen. -/
theorem pipeline_eq (limit : Nat) (left : Segment) (c : Cursor) :
    pipeline limit left c =
      if left.words.isEmpty then (.error (.missingCommand left.start), c)
      else if (c.peek [Symbol.pipe.byte]).1 then
        match segment limit c.next.2 with
        | (.error e, c') => (.error e, c')
        | (.ok right, c') =>
          match pipeline limit right c' with
          | (.error e, d) => (.error e, d)
          | (.ok r, d) => (.ok (.pipe left.command r), d)
      else (.ok left.command, c.skip) := by
  by_cases hw : left.words.isEmpty = true
  · rw [pipeline, if_pos hw, if_pos hw]
  by_cases hp : (c.peek [Symbol.pipe.byte]).1 = true
  · rw [pipeline, if_neg hw, if_pos hp, if_neg hw, if_pos hp]
    split
    · rename_i hn
      exact absurd hp (Cursor.not_peek_of_next_none hn)
    · rename_i t d hn
      have hd : c.next.2 = d := congrArg Prod.snd hn
      rw [hd]
      split
      · rename_i hs
        simp only [hs]
      · rename_i right c' hs
        rcases hr : pipeline limit right c' with ⟨e | r, c''⟩ <;> simp only [hs, hr]
  · rw [pipeline, if_neg hw, if_neg hw, if_neg hp, if_neg hp]

end Parser

namespace Grammar

/-- The parts of a token list between its pipes. -/
def segments (ts : List Token) : List (List Token) := ts.splitOnP Token.isPipe

/-- Behind every redirection symbol stands a word. -/
def FilesNamed (ts : List Token) : Prop :=
  ∀ before symbol after, ts = before ++ symbol :: after → symbol.isRedirection = true →
    ∃ file rest, after = file :: rest ∧ file.isWord = true

/-- The tokens of a list, each with the token before it. `previous` is the one before
the first. -/
def withPrevious (previous : Option Token) (ts : List Token) : List (Option Token × Token) :=
  (previous :: ts.map some).zip ts

/-- A word that does not stand behind a redirection symbol. -/
def argument? (p : Option Token × Token) : Option Bytes :=
  if p.2.isWord && !p.1.any Token.isRedirection then some p.2.text else none

/-- The redirection whose file is this token. -/
def redirectionAt? (p : Option Token × Token) : Option Redirection :=
  p.1.bind (·.redirection? p.2)

/-- The words of a segment that are no files of its redirections, in order. -/
def arguments (ts : List Token) : List Bytes := (withPrevious none ts).filterMap argument?

/-- The redirections of a segment, in order. -/
def redirections (ts : List Token) : List Redirection :=
  (withPrevious none ts).filterMap redirectionAt?

/-- The command of a segment, the first redirection innermost. -/
def segmentCommand (ts : List Token) : Command :=
  (redirections ts).foldl Command.redirect (.exec (arguments ts))

/-- Commands joined by pipes that nest to the right. -/
def joined : Command → List Command → Command
  | c, [] => c
  | c, d :: ds => .pipe c (joined d ds)

/-- The command of a token list. -/
def commandOf (ts : List Token) : Command :=
  match segments ts with
  | [] => .exec []
  | s :: rest => joined (segmentCommand s) (rest.map segmentCommand)

/-- What a token list must be like to have a command. -/
structure Grammatical (limit : Nat) (ts : List Token) : Prop where
  /-- Every redirection has its file. -/
  filesNamed : ∀ s ∈ segments ts, FilesNamed s
  /-- No segment has too many arguments. -/
  withinLimit : ∀ s ∈ segments ts, (arguments s).length ≤ limit
  /-- Where there is a pipe, every segment has a program. -/
  programNamed : (∃ t ∈ ts, t.isPipe = true) → ∀ s ∈ segments ts, arguments s ≠ []

/-! ## A segment from its first token on -/

variable {t file : Token} {ts : List Token}

theorem not_isWord_of_isRedirection (h : t.isRedirection = true) : t.isWord = false := by
  simp only [Token.isRedirection, Bool.or_eq_true, decide_eq_true_eq] at h
  rcases h with h | h <;> simp [Token.isWord, h]

theorem not_isRedirection_of_isWord (h : t.isWord = true) : t.isRedirection = false := by
  simp only [Token.isWord, decide_eq_true_eq] at h
  simp [Token.isRedirection, h]

theorem not_isPipe_of_isWord (h : t.isWord = true) : t.isPipe = false := by
  simp only [Token.isWord, decide_eq_true_eq] at h
  simp [Token.isPipe, h]

@[simp]
theorem withPrevious_cons (previous : Option Token) (t : Token) (ts : List Token) :
    withPrevious previous (t :: ts) = (previous, t) :: withPrevious (some t) ts := rfl

theorem redirection?_eq_none (h : t.isRedirection = false) : t.redirection? file = none := by
  simp only [Token.isRedirection, Bool.or_eq_false_iff, decide_eq_false_iff_not] at h
  unfold Token.redirection?
  split <;> simp_all

/-- The token before a list counts only if it is a redirection symbol. -/
theorem filterMap_argument? {previous : Option Token} (h : previous.any Token.isRedirection = false)
    (ts : List Token) : (withPrevious previous ts).filterMap argument? = arguments ts := by
  cases ts with
  | nil => rfl
  | cons t ts => simp [arguments, List.filterMap_cons, argument?, h]

theorem filterMap_redirectionAt? {previous : Option Token}
    (h : previous.any Token.isRedirection = false) (ts : List Token) :
    (withPrevious previous ts).filterMap redirectionAt? = redirections ts := by
  cases ts with
  | nil => rfl
  | cons t ts =>
    cases previous with
    | none => rfl
    | some p =>
      have hp : p.redirection? t = none := redirection?_eq_none (by simpa using h)
      simp only [redirections, withPrevious_cons, List.filterMap_cons, redirectionAt?,
        Option.bind_none, Option.bind_some, hp]

theorem arguments_cons_word (h : t.isWord = true) (ts : List Token) :
    arguments (t :: ts) = t.text :: arguments ts := by
  have hr : (some t).any Token.isRedirection = false := not_isRedirection_of_isWord h
  rw [← filterMap_argument? hr ts]
  simp [arguments, argument?, h]

theorem redirections_cons_word (h : t.isWord = true) (ts : List Token) :
    redirections (t :: ts) = redirections ts := by
  have hr : (some t).any Token.isRedirection = false := not_isRedirection_of_isWord h
  rw [← filterMap_redirectionAt? hr ts]
  simp only [redirections, withPrevious_cons, List.filterMap_cons, redirectionAt?, Option.bind_none]

theorem arguments_cons_redirection (h : t.isRedirection = true) (hf : file.isWord = true)
    (ts : List Token) : arguments (t :: file :: ts) = arguments ts := by
  have hr : (some file).any Token.isRedirection = false := not_isRedirection_of_isWord hf
  rw [← filterMap_argument? hr ts]
  simp [arguments, argument?, h, not_isWord_of_isRedirection h]

theorem redirections_cons_redirection {r : Redirection} (h : t.redirection? file = some r)
    (hf : file.isWord = true) (ts : List Token) :
    redirections (t :: file :: ts) = r :: redirections ts := by
  have hr : (some file).any Token.isRedirection = false := not_isRedirection_of_isWord hf
  rw [← filterMap_redirectionAt? hr ts]
  simp only [redirections, withPrevious_cons, List.filterMap_cons, redirectionAt?,
    Option.bind_none, Option.bind_some, h]

/-! ## Segments whose redirections have their files -/

theorem filesNamed_nil : FilesNamed [] := by
  intro before symbol after h
  simp at h

/-- What stands behind a token that is no redirection symbol has its files by itself. -/
theorem filesNamed_cons (h : t.isRedirection = false) : FilesNamed (t :: ts) ↔ FilesNamed ts := by
  constructor
  · rintro hn before symbol after rfl
    exact hn (t :: before) symbol after rfl
  · intro hn before symbol after heq hs
    cases before with
    | nil =>
      obtain ⟨rfl, rfl⟩ := List.cons.inj heq
      rw [h] at hs
      cases hs
    | cons b before => exact hn before symbol after (List.cons.inj heq).2 hs

theorem filesNamed_cons_redirection (h : t.isRedirection = true) :
    FilesNamed (t :: ts) ↔
      ∃ file rest, ts = file :: rest ∧ file.isWord = true ∧ FilesNamed rest := by
  constructor
  · intro hn
    obtain ⟨file, rest, rfl, hf⟩ := hn [] t ts rfl h
    refine ⟨file, rest, rfl, hf, ?_⟩
    rintro before symbol after rfl
    exact hn (t :: file :: before) symbol after rfl
  · rintro ⟨file, rest, rfl, hf, hn⟩
    intro before symbol after heq hs
    cases before with
    | nil =>
      obtain ⟨rfl, rfl⟩ := List.cons.inj heq
      exact ⟨file, rest, rfl, hf⟩
    | cons b before =>
      have hn' := (filesNamed_cons (not_isRedirection_of_isWord hf)).mpr hn
      exact hn' before symbol after (List.cons.inj heq).2 hs

theorem filesNamed_cons_file (h : t.isRedirection = true) (hf : file.isWord = true) :
    FilesNamed (t :: file :: ts) ↔ FilesNamed ts := by
  rw [filesNamed_cons_redirection h]
  constructor
  · rintro ⟨f, rest, heq, -, hn⟩
    obtain ⟨-, rfl⟩ := List.cons.inj heq
    exact hn
  · intro hn
    exact ⟨file, ts, rfl, hf, hn⟩

/-- Every token of a segment is an argument, a redirection symbol or its file. -/
theorem length_eq_of_filesNamed : ∀ ts : List Token, FilesNamed ts →
    (∀ t ∈ ts, t.isPipe = false) →
      ts.length = (arguments ts).length + 2 * (redirections ts).length
  | [], _, _ => rfl
  | t :: ts, h, hp => by
    cases hk : t.kind with
    | word =>
      have hw : t.isWord = true := by simp [Token.isWord, hk]
      have ih := length_eq_of_filesNamed ts
        ((filesNamed_cons (not_isRedirection_of_isWord hw)).mp h) fun u hu => hp u (by simp [hu])
      rw [arguments_cons_word hw, redirections_cons_word hw, List.length_cons, List.length_cons, ih]
      omega
    | symbol s =>
      have hr : t.isRedirection = true := by
        have := hp t (by simp)
        cases s <;> simp_all [Token.isRedirection, Token.isPipe]
      obtain ⟨file, rest, rfl, hf, hn⟩ := (filesNamed_cons_redirection hr).mp h
      have ih := length_eq_of_filesNamed rest hn fun u hu => hp u (by simp [hu])
      obtain ⟨r, hr'⟩ : ∃ r, t.redirection? file = some r := by
        have hfk : file.kind = .word := by simpa [Token.isWord] using hf
        simp only [Token.isRedirection, Bool.or_eq_true, decide_eq_true_eq] at hr
        rcases hr with h | h <;> simp [Token.redirection?, h, hfk]
      rw [arguments_cons_redirection hr hf, redirections_cons_redirection hr' hf]
      simp only [List.length_cons, ih]
      omega
termination_by ts => ts.length

/-! ## The segment at a cursor -/

/-- The tokens of a list up to its first pipe. -/
def untilPipe (ts : List Token) : List Token := ts.takeWhile fun t => !t.isPipe

/-- The tokens of a list from its first pipe on. -/
def fromPipe (ts : List Token) : List Token := ts.dropWhile fun t => !t.isPipe

theorem untilPipe_cons (h : t.isPipe = false) : untilPipe (t :: ts) = t :: untilPipe ts := by
  simp [untilPipe, h]

theorem fromPipe_cons (h : t.isPipe = false) : fromPipe (t :: ts) = fromPipe ts := by
  simp [fromPipe, h]

theorem untilPipe_cons_pipe (h : t.isPipe = true) : untilPipe (t :: ts) = [] := by
  simp [untilPipe, h]

theorem fromPipe_cons_pipe (h : t.isPipe = true) : fromPipe (t :: ts) = t :: ts := by
  simp [fromPipe, h]

/-- A segment read so far, with what the tokens `ts` say. -/
def extend (s : Segment) (ts : List Token) : Segment :=
  { s with
    words := s.words ++ arguments ts
    redirections := s.redirections ++ redirections ts }

@[simp]
theorem extend_nil (s : Segment) : extend s [] = s := by
  simp [extend, arguments, redirections, withPrevious]

theorem extend_cons_word (s : Segment) (h : t.isWord = true) :
    extend s (t :: ts) = extend { s with words := s.words ++ [t.text] } ts := by
  simp [extend, arguments_cons_word h, redirections_cons_word h]

theorem extend_cons_redirection (s : Segment) {r : Redirection}
    (h : t.redirection? file = some r) (ht : t.isRedirection = true) (hf : file.isWord = true) :
    extend s (t :: file :: ts) = extend { s with redirections := s.redirections ++ [r] } ts := by
  simp [extend, arguments_cons_redirection ht hf, redirections_cons_redirection h hf]

theorem isRedirection_of_direction? {symbol : Symbol} {d : Direction} (hk : t.kind = .symbol symbol)
    (hd : symbol.direction? = some d) : t.isRedirection = true := by
  cases symbol <;> simp_all [Token.isRedirection, Symbol.direction?]

theorem redirection?_of_direction? {symbol : Symbol} {d : Direction}
    (hk : t.kind = .symbol symbol) (hd : symbol.direction? = some d) (hf : file.isWord = true) :
    t.redirection? file = some { direction := d, path := file.text } := by
  have hfk : file.kind = .word := by simpa [Token.isWord] using hf
  cases symbol <;> simp_all [Token.redirection?, Symbol.direction?] <;> subst hd <;> rfl

theorem not_isPipe_of_isRedirection (h : t.isRedirection = true) : t.isPipe = false := by
  simp only [Token.isRedirection, Bool.or_eq_true, decide_eq_true_eq] at h
  rcases h with h | h <;> simp [Token.isPipe, h]

/-- What comes of reading on in a segment, at a cursor with the tokens `ts` : it is read if
its files are named and its arguments are few enough, and the cursor is then at the pipe
behind it. -/
def SegmentOutcome (limit : Nat) (s : Segment) (ts : List Token) :
    Except SyntaxError Segment × Cursor → Prop
  | (.ok s', c) =>
    FilesNamed (untilPipe ts) ∧ s.words.length + (arguments (untilPipe ts)).length ≤ limit ∧
      s' = extend s (untilPipe ts) ∧ c.tokens = fromPipe ts
  | (.error _, _) =>
    ¬(FilesNamed (untilPipe ts) ∧ s.words.length + (arguments (untilPipe ts)).length ≤ limit)

theorem SegmentOutcome.cons_word {limit : Nat} {s : Segment}
    {r : Except SyntaxError Segment × Cursor} (hw : t.isWord = true)
    (h : SegmentOutcome limit { s with words := s.words ++ [t.text] } ts r) :
    SegmentOutcome limit s (t :: ts) r := by
  have hn : FilesNamed (t :: untilPipe ts) ↔ FilesNamed (untilPipe ts) :=
    filesNamed_cons (not_isRedirection_of_isWord hw)
  have hl : s.words.length + (arguments (t :: untilPipe ts)).length =
      (s.words ++ [t.text]).length + (arguments (untilPipe ts)).length := by
    rw [arguments_cons_word hw, List.length_cons, List.length_append, List.length_singleton]
    omega
  obtain ⟨e | s', c⟩ := r <;>
    simp only [SegmentOutcome, untilPipe_cons (not_isPipe_of_isWord hw),
      fromPipe_cons (not_isPipe_of_isWord hw), hn, hl, extend_cons_word s hw] at h ⊢ <;>
    exact h

theorem SegmentOutcome.cons_redirection {limit : Nat} {s : Segment} {r : Redirection}
    {result : Except SyntaxError Segment × Cursor} (hr : t.redirection? file = some r)
    (ht : t.isRedirection = true) (hf : file.isWord = true)
    (h : SegmentOutcome limit { s with redirections := s.redirections ++ [r] } ts result) :
    SegmentOutcome limit s (t :: file :: ts) result := by
  have hn : FilesNamed (t :: file :: untilPipe ts) ↔ FilesNamed (untilPipe ts) :=
    filesNamed_cons_file ht hf
  obtain ⟨e | s', c⟩ := result <;>
    simp only [SegmentOutcome, untilPipe_cons (not_isPipe_of_isRedirection ht),
      untilPipe_cons (not_isPipe_of_isWord hf), fromPipe_cons (not_isPipe_of_isRedirection ht),
      fromPipe_cons (not_isPipe_of_isWord hf), hn, arguments_cons_redirection ht hf,
      extend_cons_redirection s hr ht hf] at h ⊢ <;>
    exact h

/-- A redirection symbol with no word behind it ends the reading. -/
theorem not_filesNamed_untilPipe (ht : t.isRedirection = true)
    (h : ∀ file rest, ts = file :: rest → file.isWord = false) :
    ¬FilesNamed (untilPipe (t :: ts)) := by
  rw [untilPipe_cons (not_isPipe_of_isRedirection ht), filesNamed_cons_redirection ht]
  rintro ⟨file, rest, heq, hf, -⟩
  cases ts with
  | nil => simp [untilPipe] at heq
  | cons u ts =>
    have hu := h u ts rfl
    by_cases hp : u.isPipe = true
    · rw [untilPipe_cons_pipe hp] at heq
      cases heq
    · rw [untilPipe_cons (by simpa using hp)] at heq
      obtain ⟨rfl, -⟩ := List.cons.inj heq
      rw [hu] at hf
      cases hf

theorem segmentFrom_outcome (limit : Nat) (s : Segment) (c : Cursor)
    (hs : s.words.length ≤ limit) :
    SegmentOutcome limit s c.tokens (Parser.segmentFrom limit s c) := by
  fun_induction Parser.segmentFrom limit s c with
  | case1 s c d h =>
    have hd : d.tokens = [] := by
      rw [Cursor.eq_skip_of_next_none h, Cursor.tokens_skip, Cursor.tokens_of_next_none h]
    rw [Cursor.tokens_of_next_none h]
    exact ⟨filesNamed_nil, hs, (extend_nil s).symm, hd⟩
  | case2 s c t d h hk hl ih =>
    have hw : t.isWord = true := by simp [Token.isWord, hk]
    rw [Cursor.tokens_of_next_some h]
    refine SegmentOutcome.cons_word hw (ih ?_)
    rw [List.length_append, List.length_singleton]
    omega
  | case3 s c t d h hk hl =>
    have hw : t.isWord = true := by simp [Token.isWord, hk]
    rw [Cursor.tokens_of_next_some h]
    rintro ⟨-, hle⟩
    rw [untilPipe_cons (not_isPipe_of_isWord hw), arguments_cons_word hw, List.length_cons] at hle
    omega
  | case4 s c t d h symbol hk hd =>
    have hp : t.isPipe = true := by
      cases symbol <;> simp_all [Token.isPipe, Symbol.direction?]
    have hts := Cursor.tokens_of_next_some h
    rw [hts]
    refine ⟨?_, ?_, ?_, ?_⟩
    · rw [untilPipe_cons_pipe hp]
      exact filesNamed_nil
    · rw [untilPipe_cons_pipe hp]
      exact hs
    · rw [untilPipe_cons_pipe hp, extend_nil]
    · rw [fromPipe_cons_pipe hp, Cursor.tokens_skip, hts]
  | case5 s c t d h symbol hk dir hd e h' =>
    rw [Cursor.tokens_of_next_some h, Cursor.tokens_of_next_none h']
    rintro ⟨hn, -⟩
    refine not_filesNamed_untilPipe (isRedirection_of_direction? hk hd) ?_ hn
    intro file rest heq
    cases heq
  | case6 s c t d h symbol hk dir hd file e h' hw ih =>
    rw [Cursor.tokens_of_next_some h, Cursor.tokens_of_next_some h']
    exact SegmentOutcome.cons_redirection (redirection?_of_direction? hk hd hw)
      (isRedirection_of_direction? hk hd) hw (ih hs)
  | case7 s c t d h symbol hk dir hd file e h' hw =>
    rw [Cursor.tokens_of_next_some h, Cursor.tokens_of_next_some h']
    rintro ⟨hn, -⟩
    refine not_filesNamed_untilPipe (isRedirection_of_direction? hk hd) ?_ hn
    intro u rest heq
    obtain ⟨rfl, -⟩ := List.cons.inj heq
    simpa using hw

/-! ## The segments behind a pipe -/

theorem not_isPipe_of_mem_untilPipe : ∀ t ∈ untilPipe ts, t.isPipe = false := by
  intro t ht
  simpa using List.mem_takeWhile_imp ht

theorem eq_untilPipe_append {p : Token} {back : List Token} (h : fromPipe ts = p :: back) :
    ts = untilPipe ts ++ p :: back ∧ p.isPipe = true := by
  constructor
  · rw [← h]
    exact List.takeWhile_append_dropWhile.symm
  · have hp := List.head?_dropWhile_not (fun t : Token => !t.isPipe) ts
    rw [show ts.dropWhile (fun t => !t.isPipe) = p :: back from h] at hp
    simpa using hp

theorem segments_untilPipe_append {p : Token} (hp : p.isPipe = true) (us : List Token) :
    segments (untilPipe ts ++ p :: us) = untilPipe ts :: segments us :=
  List.splitOnP_append_cons_of_forall_mem not_isPipe_of_mem_untilPipe p hp us

theorem segments_untilPipe (ts : List Token) : segments (untilPipe ts) = [untilPipe ts] :=
  List.splitOnP_eq_singleton not_isPipe_of_mem_untilPipe

theorem tail_segments_cons (h : t.isPipe = true) : (segments (t :: ts)).tail = segments ts := by
  rw [segments, List.splitOnP_cons_eq_if_modifyHead, if_pos h, List.tail_cons, segments]

/-- The first segment of a list goes up to its first pipe. -/
theorem segments_eq (ts : List Token) :
    segments ts = untilPipe ts :: (segments (fromPipe ts)).tail := by
  cases hf : fromPipe ts with
  | nil =>
    have happ : untilPipe ts ++ fromPipe ts = ts := List.takeWhile_append_dropWhile
    rw [hf, List.append_nil] at happ
    have hone := segments_untilPipe ts
    rw [happ] at hone ⊢
    simpa [segments] using hone
  | cons p rest =>
    obtain ⟨heq, hp⟩ := eq_untilPipe_append hf
    calc segments ts
        = segments (untilPipe ts ++ p :: rest) := congrArg segments heq
      _ = untilPipe ts :: segments rest := segments_untilPipe_append hp rest
      _ = untilPipe ts :: (segments (p :: rest)).tail := by rw [tail_segments_cons hp]

/-- A segment that may stand in a line with pipes. -/
def Complete (limit : Nat) (ts : List Token) : Prop :=
  FilesNamed ts ∧ (arguments ts).length ≤ limit ∧ arguments ts ≠ []

/-- What comes of reading the segments behind `left`, at a cursor with the tokens `ts`,
the first of which is a pipe. -/
def PipelineOutcome (limit : Nat) (left : Segment) (ts : List Token) :
    Except SyntaxError Command × Cursor → Prop
  | (.ok r, c) =>
    (left.words ≠ [] ∧ ∀ s ∈ (segments ts).tail, Complete limit s) ∧
      r = joined left.command ((segments ts).tail.map segmentCommand) ∧ c.tokens = []
  | (.error _, _) => ¬(left.words ≠ [] ∧ ∀ s ∈ (segments ts).tail, Complete limit s)

theorem fromPipe_fromPipe (ts : List Token) : fromPipe (fromPipe ts) = fromPipe ts := by
  rw [fromPipe, fromPipe, List.dropWhile_idempotent]

/-- A cursor that has read a segment and sees no pipe is at the end. -/
theorem tokens_eq_nil_of_not_peek {c : Cursor} (hc : fromPipe c.tokens = c.tokens)
    (h : ¬(c.peek [Symbol.pipe.byte]).1 = true) : c.tokens = [] := by
  cases hts : c.tokens with
  | nil => rfl
  | cons t ts =>
    by_cases hp : t.isPipe = true
    · exact absurd (Cursor.peek_symbol_iff.mpr ⟨t, ts, hts, by simpa [Token.isPipe] using hp⟩) h
    · rw [hts, fromPipe_cons (by simpa using hp)] at hc
      have := List.length_dropWhile_le (fun t : Token => !t.isPipe) ts
      rw [show ts.dropWhile (fun t => !t.isPipe) = t :: ts from hc, List.length_cons] at this
      omega

/-- The segment behind a pipe is read if it is named and short, and then it has the command
that its tokens say. -/
theorem segment_outcome (limit : Nat) (c : Cursor) :
    SegmentOutcome limit { start := c.position } c.tokens (Parser.segment limit c) :=
  segmentFrom_outcome limit _ c (Nat.zero_le _)

theorem isPipe_of_peek {c c' : Cursor} (hp : (c.peek [Symbol.pipe.byte]).1 = true)
    (hn : c.next = (some t, c')) : t.isPipe = true := by
  simpa [Token.isPipe] using Cursor.kind_of_peek hp hn

theorem tail_segments_of_peek {c c' : Cursor} (hp : (c.peek [Symbol.pipe.byte]).1 = true)
    (hn : c.next = (some t, c')) : (segments c.tokens).tail = segments c'.tokens := by
  rw [Cursor.tokens_of_next_some hn]
  exact tail_segments_cons (isPipe_of_peek hp hn)

theorem pipeline_outcome (limit : Nat) (left : Segment) (c : Cursor)
    (hc : fromPipe c.tokens = c.tokens) :
    PipelineOutcome limit left c.tokens (Parser.pipeline limit left c) := by
  fun_induction Parser.pipeline limit left c with
  | case1 left c hl =>
    rintro ⟨hne, -⟩
    exact hne (List.isEmpty_iff.mp hl)
  | case2 left c hl hp c' hn => exact absurd hp (Cursor.not_peek_of_next_none hn)
  | case3 left c hl hp t c' hn e c'' hs =>
    have hseg := segment_outcome limit c'
    rw [hs] at hseg
    rintro ⟨-, hall⟩
    rw [tail_segments_of_peek hp hn, segments_eq, List.forall_mem_cons] at hall
    obtain ⟨⟨hnamed, hlen, -⟩, -⟩ := hall
    exact hseg ⟨hnamed, by simpa using hlen⟩
  | case4 left c hl hp t c' hn right c'' hs e d hr ih =>
    have hseg := segment_outcome limit c'
    rw [hs] at hseg
    obtain ⟨-, -, rfl, htokens⟩ := hseg
    have hpipe := ih (by rw [htokens, fromPipe_fromPipe])
    rw [hr, htokens] at hpipe
    rintro ⟨-, hall⟩
    rw [tail_segments_of_peek hp hn, segments_eq, List.forall_mem_cons] at hall
    exact hpipe ⟨hall.1.2.2, hall.2⟩
  | case5 left c hl hp t c' hn right c'' hs r d hr ih =>
    have hne : left.words ≠ [] := by simpa using hl
    have hseg := segment_outcome limit c'
    rw [hs] at hseg
    obtain ⟨hnamed, hlen, rfl, htokens⟩ := hseg
    have hpipe := ih (by rw [htokens, fromPipe_fromPipe])
    rw [hr, htokens] at hpipe
    obtain ⟨⟨hwords, hall⟩, rfl, hend⟩ := hpipe
    have htail := (tail_segments_of_peek hp hn).trans (segments_eq c'.tokens)
    refine ⟨⟨hne, ?_⟩, ?_, hend⟩
    · rw [htail, List.forall_mem_cons]
      exact ⟨⟨hnamed, by simpa using hlen, hwords⟩, hall⟩
    · rw [htail, List.map_cons, joined]
      rfl
  | case6 left c hl hp =>
    have hne : left.words ≠ [] := by simpa using hl
    have hts := tokens_eq_nil_of_not_peek hc hp
    rw [hts]
    refine ⟨⟨hne, by simp [segments]⟩, by simp [segments, joined], ?_⟩
    rw [Cursor.tokens_skip, hts]

/-! ## A whole line -/

theorem fromPipe_ne_nil_iff : fromPipe ts ≠ [] ↔ ∃ t ∈ ts, t.isPipe = true := by
  simp [fromPipe, List.dropWhile_eq_nil_iff]

/-- A line without pipes is one segment, which may be without a program. -/
theorem grammatical_of_fromPipe_eq_nil {limit : Nat} (h : fromPipe ts = []) :
    Grammatical limit ts ↔
      FilesNamed (untilPipe ts) ∧ (arguments (untilPipe ts)).length ≤ limit := by
  have hsegs : segments ts = [untilPipe ts] := by rw [segments_eq, h]; rfl
  constructor
  · intro hg
    have hmem : untilPipe ts ∈ segments ts := by simp [hsegs]
    exact ⟨hg.filesNamed _ hmem, hg.withinLimit _ hmem⟩
  · rintro ⟨hnamed, hlen⟩
    refine ⟨?_, ?_, fun hpipe => absurd h (fromPipe_ne_nil_iff.mpr hpipe)⟩ <;>
      simpa [hsegs]

/-- In a line with pipes every segment is complete. -/
theorem grammatical_of_fromPipe_ne_nil {limit : Nat} (h : fromPipe ts ≠ []) :
    Grammatical limit ts ↔ ∀ s ∈ segments ts, Complete limit s := by
  constructor
  · intro hg s hs
    exact ⟨hg.filesNamed s hs, hg.withinLimit s hs,
      hg.programNamed (fromPipe_ne_nil_iff.mp h) s hs⟩
  · intro hall
    exact ⟨fun s hs => (hall s hs).1, fun s hs => (hall s hs).2.1, fun _ s hs => (hall s hs).2.2⟩

/-- What comes of reading a whole line, at a cursor with the tokens `ts`. -/
def LineOutcome (limit : Nat) (ts : List Token) : Except SyntaxError Command × Cursor → Prop
  | (.ok r, c) => Grammatical limit ts ∧ r = commandOf ts ∧ c.tokens = []
  | (.error _, _) => ¬Grammatical limit ts

theorem commandOf_eq (ts : List Token) :
    commandOf ts = joined (segmentCommand (untilPipe ts))
      ((segments (fromPipe ts)).tail.map segmentCommand) := by
  rw [commandOf, segments_eq]

theorem command_outcome (limit : Nat) (c : Cursor) :
    LineOutcome limit c.tokens (Parser.command limit c) := by
  have hseg := segment_outcome limit c
  unfold Parser.command
  rcases hs : Parser.segment limit c with ⟨e | first, c'⟩
  · rw [hs] at hseg
    intro hg
    have hmem : untilPipe c.tokens ∈ segments c.tokens := by rw [segments_eq]; simp
    exact hseg ⟨hg.filesNamed _ hmem, by simpa using hg.withinLimit _ hmem⟩
  · rw [hs] at hseg
    obtain ⟨hnamed, hlen, rfl, htokens⟩ := hseg
    have hfrom : fromPipe c'.tokens = c'.tokens := by rw [htokens, fromPipe_fromPipe]
    simp only
    split
    · rename_i hp
      obtain ⟨t, us, hts, -⟩ := Cursor.peek_symbol_iff.mp hp
      have hne : fromPipe c.tokens ≠ [] := by rw [← htokens, hts]; simp
      have hpipe := pipeline_outcome limit (extend { start := c.position } (untilPipe c.tokens))
        c'.skip (by rw [Cursor.tokens_skip, hfrom])
      rw [Cursor.tokens_skip, htokens] at hpipe
      have hall : Grammatical limit c.tokens ↔ Complete limit (untilPipe c.tokens) ∧
          ∀ s ∈ (segments (fromPipe c.tokens)).tail, Complete limit s := by
        rw [grammatical_of_fromPipe_ne_nil hne, segments_eq c.tokens, List.forall_mem_cons]
      rcases hr : Parser.pipeline limit _ c'.skip with ⟨e | r, d⟩
      · rw [hr] at hpipe
        intro hg
        exact hpipe ⟨(hall.mp hg).1.2.2, (hall.mp hg).2⟩
      · rw [hr] at hpipe
        obtain ⟨⟨hwords, hrest⟩, rfl, hend⟩ := hpipe
        refine ⟨hall.mpr ⟨⟨hnamed, by simpa using hlen, hwords⟩, hrest⟩, ?_, hend⟩
        rw [commandOf_eq]
        rfl
    · rename_i hp
      have hnil := tokens_eq_nil_of_not_peek hfrom hp
      rw [htokens] at hnil
      refine ⟨(grammatical_of_fromPipe_eq_nil hnil).mpr ⟨hnamed, by simpa using hlen⟩, ?_, ?_⟩
      · rw [commandOf_eq, hnil]
        rfl
      · rw [Cursor.tokens_skip, htokens, hnil]

/-- Nothing is ever left behind a command. -/
theorem line_outcome (limit : Nat) (c : Cursor) :
    LineOutcome limit c.tokens (Parser.line limit c) := by
  have hcmd := command_outcome limit c
  unfold Parser.line
  rcases hc : Parser.command limit c with ⟨e | r, c'⟩
  · rw [hc] at hcmd
    exact hcmd
  · rw [hc] at hcmd
    obtain ⟨hg, rfl, hend⟩ := hcmd
    simp only [Cursor.atEnd_iff.mpr hend, if_true]
    exact ⟨hg, rfl, by rw [Cursor.tokens_skip, hend]⟩

/-- The tokens of a segment are tokens of the list, and no pipes. -/
theorem mem_of_mem_segments {s : List Token} (hs : s ∈ segments ts) (ht : t ∈ s) :
    t ∈ ts ∧ t.isPipe = false := by
  induction ts generalizing s with
  | nil =>
    obtain rfl : s = [] := by simpa [segments] using hs
    cases ht
  | cons u us ih =>
    rw [segments, List.splitOnP_cons_eq_if_modifyHead] at hs
    split at hs
    · rcases List.mem_cons.mp hs with rfl | hs
      · cases ht
      · exact (ih hs ht).imp_left (List.mem_cons_of_mem _)
    · rename_i hu
      obtain ⟨first, rest, heq⟩ := List.exists_cons_of_ne_nil (List.splitOnP_ne_nil Token.isPipe us)
      rw [heq, List.modifyHead_cons, List.mem_cons] at hs
      rcases hs with rfl | hs
      · rcases List.mem_cons.mp ht with rfl | ht
        · exact ⟨List.mem_cons_self, by simpa using hu⟩
        · exact (ih (by rw [segments, heq]; exact List.mem_cons_self) ht).imp_left
            (List.mem_cons_of_mem _)
      · exact (ih (by rw [segments, heq]; exact List.mem_cons_of_mem _ hs) ht).imp_left
          (List.mem_cons_of_mem _)

theorem not_isPipe_of_mem_segments {s : List Token} (hs : s ∈ segments ts) :
    ∀ t ∈ s, t.isPipe = false :=
  fun _ ht => (mem_of_mem_segments hs ht).2

/-- A line has a command if and only if its tokens are grammatical : behind every redirection
symbol stands its file, no segment has more than `limit` arguments, and with a pipe in the
line every segment has a program. The command is then the one that its tokens write, and
every token of a segment is an argument, a redirection symbol or its file. -/
theorem parse_eq_ok_iff (limit : Nat) (line : Bytes) (c : Command) :
    (parse limit line = .ok c ↔
      Grammatical limit (tokenize line) ∧ c = commandOf (tokenize line)) ∧
    (Grammatical limit (tokenize line) → ∀ s ∈ segments (tokenize line),
      s.length = (arguments s).length + 2 * (redirections s).length) := by
  have hline := line_outcome limit (Cursor.ofLine line)
  refine ⟨?_, fun hg s hs =>
    length_eq_of_filesNamed s (hg.filesNamed s hs) (not_isPipe_of_mem_segments hs)⟩
  unfold parse
  rcases hr : Parser.line limit (Cursor.ofLine line) with ⟨e | r, d⟩ <;> rw [hr] at hline
  · constructor
    · intro h
      cases h
    · rintro ⟨hg, -⟩
      exact absurd hg hline
  · obtain ⟨hg, hcommand, -⟩ := hline
    constructor
    · intro h
      cases h
      exact ⟨hg, hcommand⟩
    · rintro ⟨-, rfl⟩
      rw [hcommand]
      rfl

end Grammar

end LineShell
