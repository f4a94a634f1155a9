import LineShell.Proofs.Grammar
import LineShell.Proofs.Wrapping

/-!
# The text of a command

`Command.print` writes a command as a line. The commands that it writes faithfully are those that are
`Command.Canonical` : segments joined by pipes that nest to the right, each a program inside redirections
for the descriptors of their directions, with words that no byte cuts.

A text `Reads` as tokens wherever it stands in a line, as long as a separator or nothing follows
it. What a canonical command is written as reads as its `Command.marks` (`reads_print`), and tokens with
these marks write the command (`segments_of_marks`). In the other direction the words of a line are plain
(`isPlainWord_of_mem_tokens`), and so its command is canonical (`canonical_commandOf`).

`Grammar.parse_print` : reading undoes writing on the canonical commands, and these are all that is
ever read.
-/

namespace LineShell

/-! ## Canonical commands -/

/-- The bytes that no word of a line has : the five separators, and the three symbols. -/
def reserved : List UInt8 := [0x20, 0x09, 0x0D, 0x0A, 0x0B, 0x3C, 0x7C, 0x3E]

theorem isWordByte_iff {b : UInt8} : isWordByte b = true ↔ b ∉ reserved := by
  simp only [isWordByte, isSeparator, Symbol.ofByte?, reserved]
  split <;> [skip; split <;> [skip; split]] <;> simp_all [and_assoc]

/-- Bytes that can be a word of a line. -/
structure IsPlainWord (w : Bytes) : Prop where
  ne_nil : w ≠ []
  free : ∀ b ∈ w, b ∉ reserved

instance (w : Bytes) : Decidable (IsPlainWord w) :=
  haveI : Decidable (∀ b ∈ w, b ∉ reserved) := List.decidableBAll (· ∉ reserved) w
  decidable_of_iff (w ≠ [] ∧ ∀ b ∈ w, b ∉ reserved) ⟨fun h => ⟨h.1, h.2⟩, fun h => ⟨h.1, h.2⟩⟩

namespace Command

/-- The commands between the pipes of a command, if these nest to the right. -/
def segments : Command → List Command
  | .pipe left right => left :: right.segments
  | c => [c]

/-- A program with at most `limit` words, inside redirections for the descriptors of their
directions. -/
inductive IsSegment (limit : Nat) : Command → Prop
  | exec {argv : List Bytes} (words : ∀ w ∈ argv, IsPlainWord w) (few : argv.length ≤ limit) :
      IsSegment limit (.exec argv)
  | redirect {target : Command} {r : Redirection} (inside : IsSegment limit target)
      (file : IsPlainWord r.path) (descriptor : r.descriptor = r.direction.descriptor) :
      IsSegment limit (.redirect target r)

instance decidableIsSegment (limit : Nat) : (c : Command) → Decidable (IsSegment limit c)
  | .exec argv =>
    decidable_of_iff ((∀ w ∈ argv, IsPlainWord w) ∧ argv.length ≤ limit)
      ⟨fun h => .exec h.1 h.2, fun | .exec words few => ⟨words, few⟩⟩
  | .redirect target r =>
    have := decidableIsSegment limit target
    decidable_of_iff
      (IsSegment limit target ∧ IsPlainWord r.path ∧ r.descriptor = r.direction.descriptor)
      ⟨fun h => .redirect h.1 h.2.1 h.2.2,
        fun | .redirect inside file descriptor => ⟨inside, file, descriptor⟩⟩
  | .pipe _ _ => isFalse nofun

/-- Segments joined by pipes that nest to the right. Where there is a pipe, every segment has a
program. -/
structure Canonical (limit : Nat) (c : Command) : Prop where
  segment : ∀ k ∈ c.segments, k.IsSegment limit
  named : 1 < c.segments.length → ∀ k ∈ c.segments, k.unwrap.1 ≠ .exec []

instance (limit : Nat) (c : Command) : Decidable (c.Canonical limit) :=
  decidable_of_iff ((∀ k ∈ c.segments, k.IsSegment limit) ∧
    (1 < c.segments.length → ∀ k ∈ c.segments, k.unwrap.1 ≠ .exec []))
    ⟨fun h => ⟨h.1, h.2⟩, fun h => ⟨h.1, h.2⟩⟩

end Command

/-- The symbol that writes a direction. -/
def Direction.symbol : Direction → Symbol
  | .input => .input
  | .output => .output

/-- The text of a redirection. -/
def Redirection.print (r : Redirection) : Bytes :=
  [0x20, r.direction.symbol.byte, 0x20] ++ r.path

/-- The text of a command. -/
def Command.print : Command → Bytes
  | .exec argv => [0x20].intercalate argv
  | .redirect target r => target.print ++ r.print
  | .pipe left right => left.print ++ [0x20, Symbol.pipe.byte, 0x20] ++ right.print

/-! ## The tokens of a text -/

/-- What a token is, wherever it stands. -/
def Token.mark (t : Token) : Token.Kind × Bytes := (t.kind, t.text)

namespace Cursor

variable {c : Cursor} {t : Token} {b : UInt8} {rest : Bytes} {p : Nat}

theorem skip_eq_self (h : ∀ b ∈ c.rest.head?, isSeparator b = false) : c.skip = c := by
  have hnil : c.rest.takeWhile isSeparator = [] := by
    cases hr : c.rest with
    | nil => rfl
    | cons b r => simp [h b (by rw [hr]; rfl)]
  rw [skip, hnil]
  simp [advance]

/-- A separator is passed over. -/
theorem tokens_cons_separator (h : isSeparator b = true) :
    (Cursor.mk p (b :: rest)).tokens = (Cursor.mk (p + 1) rest).tokens := by
  have hskip : (Cursor.mk p (b :: rest)).skip = (Cursor.mk (p + 1) rest).skip := by
    simp only [skip, advance, List.takeWhile_cons, h, if_true, List.length_cons, List.drop_succ_cons,
      mk.injEq, and_true]
    omega
  rw [← tokens_skip, hskip, tokens_skip]

theorem token?_of_isWordByte (hr : c.rest = b :: rest) (hb : isWordByte b = true) :
    c.token? = some ⟨.word, c.rest.takeWhile isWordByte, c.position⟩ := by
  simp only [isWordByte, Bool.and_eq_true, Bool.not_eq_true', Option.isNone_iff_eq_none] at hb
  rw [token?, hr]
  simp [hb]

/-- The token on which the cursor stands is the first. -/
theorem tokens_of_token? (h : c.token? = some t) (hb : ∀ b ∈ c.rest.head?, isSeparator b = false) :
    c.tokens = t :: (c.advance t.text.length).tokens := by
  have hnext : c.next = (some t, (c.advance t.text.length).skip) := by
    rw [next, skip_eq_self hb, h]
  rw [tokens_of_next_some hnext, tokens_skip]

theorem tokens_nil : (Cursor.mk p []).tokens = [] :=
  tokens_eq_nil_iff.mpr rfl

end Cursor

/-- Bytes read as tokens with these marks, wherever they stand before a separator or the end of
the line. -/
def Reads (bs : Bytes) (ms : List (Token.Kind × Bytes)) : Prop :=
  ∀ p rest, (∀ b ∈ rest.head?, isSeparator b = true) →
    (Cursor.mk p (bs ++ rest)).tokens.map Token.mark =
      ms ++ (Cursor.mk (p + bs.length) rest).tokens.map Token.mark

namespace Reads

variable {as bs : Bytes} {ms ns : List (Token.Kind × Bytes)} {w : Bytes}

theorem nil : Reads [] [] := fun _ _ _ => rfl

theorem append (ha : Reads as ms) (hb : Reads bs ns) (hsep : ∀ b ∈ bs.head?, isSeparator b = true) :
    Reads (as ++ bs) (ms ++ ns) := by
  intro p rest hrest
  have hhead : ∀ b ∈ (bs ++ rest).head?, isSeparator b = true := by
    cases bs with
    | nil => exact hrest
    | cons b bs => exact hsep
  rw [List.append_assoc, ha p _ hhead, hb _ rest hrest, List.append_assoc, List.length_append,
    Nat.add_assoc]

theorem space (h : Reads bs ms) : Reads (0x20 :: bs) ms := by
  intro p rest hrest
  rw [List.cons_append, Cursor.tokens_cons_separator rfl, h _ rest hrest, List.length_cons,
    Nat.add_right_comm, Nat.add_assoc]

theorem word (h : IsPlainWord w) : Reads w [(.word, w)] := by
  intro p rest hrest
  have hw : ∀ b ∈ w, isWordByte b = true := fun b hb => isWordByte_iff.mpr (h.free b hb)
  have hstop : rest.takeWhile isWordByte = [] := by
    cases rest with
    | nil => rfl
    | cons b rest => simp [isWordByte, hrest b rfl]
  have htake : (w ++ rest).takeWhile isWordByte = w := by
    rw [List.takeWhile_append_of_pos hw, hstop, List.append_nil]
  obtain ⟨b, bs, rfl⟩ := List.exists_cons_of_ne_nil h.ne_nil
  have hb := hw b List.mem_cons_self
  have htoken := Cursor.token?_of_isWordByte (c := ⟨p, b :: bs ++ rest⟩) rfl hb
  rw [htake] at htoken
  have hsep : isSeparator b = false := by simpa using (Bool.and_eq_true_iff.mp hb).1
  rw [Cursor.tokens_of_token? htoken fun x hx => by rw [← Option.some.inj hx]; exact hsep]
  simp [Cursor.advance, Token.mark]

theorem symbol (s : Symbol) (h : Reads bs ms) :
    Reads (s.byte :: bs) ((.symbol s, [s.byte]) :: ms) := by
  intro p rest hrest
  have htoken : (Cursor.mk p (s.byte :: bs ++ rest)).token? = some ⟨.symbol s, [s.byte], p⟩ := by
    simp [Cursor.token?]
  have hb : isSeparator s.byte = false := by cases s <;> rfl
  rw [Cursor.tokens_of_token? htoken fun x hx => by rw [← Option.some.inj hx]; exact hb]
  have hadvance : (Cursor.mk p (s.byte :: bs ++ rest)).advance [s.byte].length =
      ⟨p + 1, bs ++ rest⟩ := rfl
  rw [hadvance, List.map_cons, h _ rest hrest, List.length_cons, Nat.add_right_comm, Nat.add_assoc]
  rfl

/-- Words with spaces between them. -/
theorem words {argv : List Bytes} (h : ∀ w ∈ argv, IsPlainWord w) :
    Reads ([0x20].intercalate argv) (argv.map (.word, ·)) := by
  induction argv with
  | nil => exact nil
  | cons w ws ih =>
    obtain ⟨hw, hws⟩ := List.forall_mem_cons.mp h
    cases ws with
    | nil => simpa using word hw
    | cons v vs =>
      rw [List.intercalate_cons_cons, List.append_assoc]
      exact (word hw).append (ih hws).space (by simp [isSeparator])

end Reads

/-! ## The tokens of a canonical command -/

/-- The marks of the tokens of a redirection. -/
def Redirection.marks (r : Redirection) : List (Token.Kind × Bytes) :=
  [(.symbol r.direction.symbol, [r.direction.symbol.byte]), (.word, r.path)]

/-- The marks of the tokens of a command. -/
def Command.marks : Command → List (Token.Kind × Bytes)
  | .exec argv => argv.map (.word, ·)
  | .redirect target r => target.marks ++ r.marks
  | .pipe left right => left.marks ++ (.symbol .pipe, [Symbol.pipe.byte]) :: right.marks

namespace Command

variable {c k : Command} {limit : Nat} {argv : List Bytes} {rs : List Redirection}

theorem IsSegment.reads_print (h : k.IsSegment limit) : Reads k.print k.marks := by
  induction h with
  | exec words few => exact Reads.words words
  | redirect inside file descriptor ih =>
    exact ih.append (Reads.symbol _ (Reads.word file).space).space (by simp [Redirection.print, isSeparator])

theorem reads_print (h : ∀ k ∈ c.segments, k.IsSegment limit) : Reads c.print c.marks := by
  induction c with
  | exec argv => exact (h _ List.mem_cons_self).reads_print
  | redirect target r ih => exact (h _ List.mem_cons_self).reads_print
  | pipe left right ihl ihr =>
    obtain ⟨hleft, hright⟩ := List.forall_mem_cons.mp h
    rw [print, marks, List.append_assoc]
    exact hleft.reads_print.append (Reads.symbol .pipe (ihr hright).space).space
      (by simp [isSeparator])

theorem map_mark_tokenize_print (h : ∀ k ∈ c.segments, k.IsSegment limit) :
    (tokenize c.print).map Token.mark = c.marks := by
  have hreads := reads_print h 0 [] (by simp)
  rwa [List.append_nil, Cursor.tokens_nil, List.map_nil, List.append_nil] at hreads

/-! ## Segments as programs inside redirections -/

theorem marks_wrap (argv : List Bytes) (rs : List Redirection) :
    ((Command.exec argv).wrap rs).marks = argv.map (.word, ·) ++ rs.flatMap Redirection.marks := by
  induction rs using List.reverseRecOn with
  | nil => simp [marks]
  | append_singleton rs r ih => simp [wrap_concat, marks, ih]

theorem isSegment_wrap_iff : ((Command.exec argv).wrap rs).IsSegment limit ↔
    (∀ w ∈ argv, IsPlainWord w) ∧ argv.length ≤ limit ∧
      ∀ r ∈ rs, IsPlainWord r.path ∧ r.descriptor = r.direction.descriptor := by
  induction rs using List.reverseRecOn with
  | nil =>
    constructor
    · rintro ⟨words, few⟩
      exact ⟨words, few, by simp⟩
    · rintro ⟨words, few, -⟩
      exact .exec words few
  | append_singleton rs r ih =>
    rw [wrap_concat, List.forall_mem_append, List.forall_mem_singleton]
    constructor
    · rintro ⟨⟩
      rename_i inside file descriptor
      obtain ⟨words, few, hrs⟩ := ih.mp inside
      exact ⟨words, few, hrs, file, descriptor⟩
    · rintro ⟨words, few, hrs, file, descriptor⟩
      exact .redirect (ih.mpr ⟨words, few, hrs⟩) file descriptor

theorem IsSegment.exists_wrap (h : k.IsSegment limit) :
    ∃ argv rs, k = (Command.exec argv).wrap rs := by
  induction h with
  | @exec argv words few => exact ⟨argv, [], rfl⟩
  | @redirect target r inside file descriptor ih =>
    obtain ⟨argv, rs, rfl⟩ := ih
    exact ⟨argv, rs ++ [r], (wrap_concat _ _ _).symm⟩

/-- A command is its segments, joined again. -/
theorem exists_joined (c : Command) : ∃ k ks, c.segments = k :: ks ∧ c = Grammar.joined k ks := by
  induction c with
  | exec argv => exact ⟨_, [], rfl, rfl⟩
  | redirect target r => exact ⟨_, [], rfl, rfl⟩
  | pipe left right ihl ihr =>
    obtain ⟨k, ks, hks, hright⟩ := ihr
    exact ⟨left, k :: ks, by rw [segments, hks], by rw [Grammar.joined, ← hright]⟩

theorem segments_joined {ks : List Command} (h : ∀ d ∈ k :: ks, d.segments = [d]) :
    (Grammar.joined k ks).segments = k :: ks := by
  induction ks generalizing k with
  | nil => exact h k List.mem_cons_self
  | cons d ds ih =>
    rw [Grammar.joined, segments, ih fun e he => h e (List.mem_cons_of_mem _ he)]

theorem IsSegment.segments_eq (h : k.IsSegment limit) : k.segments = [k] := by
  cases h <;> rfl

end Command

/-! ## What tokens with these marks write -/

namespace Grammar

open Command

variable {c k : Command} {limit : Nat} {argv : List Bytes} {rs : List Redirection} {t file : Token}
  {ts s : List Token} {line : Bytes}

theorem isWord_of_mark {w : Bytes} (h : t.mark = (.word, w)) : t.isWord = true ∧ t.text = w := by
  obtain ⟨hkind, htext⟩ := Prod.mk.inj h
  exact ⟨by rw [Token.isWord, hkind]; rfl, htext⟩

theorem redirection?_of_marks {r : Redirection} (ht : t.kind = .symbol r.direction.symbol)
    (hf : file.isWord = true) (hpath : file.text = r.path)
    (hd : r.descriptor = r.direction.descriptor) : t.redirection? file = some r := by
  have hdir : r.direction.symbol.direction? = some r.direction := by cases r.direction <;> rfl
  rw [redirection?_of_direction? ht hdir hf, hpath, ← hd]

/-- What tokens write that have the marks of words, and then of redirections. -/
theorem writes_of_marks (hd : ∀ r ∈ rs, r.descriptor = r.direction.descriptor)
    (h : ts.map Token.mark = argv.map (.word, ·) ++ rs.flatMap Redirection.marks) :
    FilesNamed ts ∧ arguments ts = argv ∧ redirections ts = rs ∧ ∀ t ∈ ts, t.isPipe = false := by
  induction argv generalizing ts with
  | cons w ws ih =>
    obtain ⟨t, us, rfl, ht, hus⟩ := List.map_eq_cons_iff.mp h
    obtain ⟨hword, htext⟩ := isWord_of_mark ht
    obtain ⟨hnamed, hargs, hreds, hpipe⟩ := ih hus
    refine ⟨(filesNamed_cons (not_isRedirection_of_isWord hword)).mpr hnamed, ?_, ?_, ?_⟩
    · rw [arguments_cons_word hword, htext, hargs]
    · rw [redirections_cons_word hword, hreds]
    · exact List.forall_mem_cons.mpr ⟨not_isPipe_of_isWord hword, hpipe⟩
  | nil =>
    induction rs generalizing ts with
    | nil =>
      obtain rfl := List.map_eq_nil_iff.mp h
      exact ⟨filesNamed_nil, rfl, rfl, by simp⟩
    | cons r rs ih =>
      obtain ⟨hr, hrs⟩ := List.forall_mem_cons.mp hd
      obtain ⟨t, vs, rfl, ht, hvs⟩ := List.map_eq_cons_iff.mp h
      obtain ⟨file, us, rfl, hfile, hus⟩ := List.map_eq_cons_iff.mp hvs
      obtain ⟨hkind, -⟩ := Prod.mk.inj ht
      obtain ⟨hword, htext⟩ := isWord_of_mark hfile
      have hred := redirection?_of_marks hkind hword htext hr
      have hsymbol : t.isRedirection = true := by
        by_contra hnot
        rw [redirection?_eq_none (by simpa using hnot)] at hred
        cases hred
      obtain ⟨hnamed, hargs, hreds, hpipe⟩ := ih hrs hus
      refine ⟨(filesNamed_cons_file hsymbol hword).mpr hnamed, ?_, ?_, ?_⟩
      · rw [arguments_cons_redirection hsymbol hword, hargs]
      · rw [redirections_cons_redirection hred hword, hreds]
      · exact List.forall_mem_cons.mpr ⟨not_isPipe_of_isRedirection hsymbol,
          List.forall_mem_cons.mpr ⟨not_isPipe_of_isWord hword, hpipe⟩⟩

theorem segment_of_marks (hk : k.IsSegment limit) (h : ts.map Token.mark = k.marks) :
    FilesNamed ts ∧ segmentCommand ts = k ∧ ∀ t ∈ ts, t.isPipe = false := by
  obtain ⟨argv, rs, rfl⟩ := hk.exists_wrap
  have hd := (isSegment_wrap_iff.mp hk).2.2
  rw [marks_wrap] at h
  obtain ⟨hnamed, hargs, hreds, hpipe⟩ := writes_of_marks (fun r hr => (hd r hr).2) h
  exact ⟨hnamed, by rw [segmentCommand, hargs, hreds]; rfl, hpipe⟩

/-- Tokens with the marks of segments write these segments. -/
theorem segments_of_marks (hc : ∀ k ∈ c.segments, k.IsSegment limit)
    (h : ts.map Token.mark = c.marks) :
    (segments ts).map segmentCommand = c.segments ∧ ∀ s ∈ segments ts, FilesNamed s := by
  have hsegment : ∀ {k : Command} {ts : List Token}, k.IsSegment limit →
      ts.map Token.mark = k.marks →
        (segments ts).map segmentCommand = [k] ∧ ∀ s ∈ segments ts, FilesNamed s := by
    intro k ts hk hts
    obtain ⟨hnamed, hcommand, hpipe⟩ := segment_of_marks hk hts
    have hone : segments ts = [ts] := List.splitOnP_eq_singleton hpipe
    rw [hone]
    exact ⟨by rw [List.map_singleton, hcommand], by simpa using hnamed⟩
  induction c generalizing ts with
  | exec argv => exact hsegment (hc _ List.mem_cons_self) h
  | redirect target r => exact hsegment (hc _ List.mem_cons_self) h
  | pipe left right ihl ihr =>
    obtain ⟨hleft, hright⟩ := List.forall_mem_cons.mp hc
    obtain ⟨us, ws, rfl, hus, hws⟩ := List.map_eq_append_iff.mp h
    obtain ⟨t, vs, rfl, ht, hvs⟩ := List.map_eq_cons_iff.mp hws
    obtain ⟨hnamed, hcommand, hpipe⟩ := segment_of_marks hleft hus
    obtain ⟨hmap, hall⟩ := ihr hright hvs
    have ht : t.isPipe = true := by simp [Token.isPipe, (Prod.mk.inj ht).1]
    have hsplit : segments (us ++ t :: vs) = us :: segments vs :=
      List.splitOnP_append_cons_of_forall_mem hpipe t ht vs
    rw [hsplit, List.map_cons, hcommand, hmap]
    exact ⟨rfl, List.forall_mem_cons.mpr ⟨hnamed, hall⟩⟩

theorem exists_joined_commandOf (ts : List Token) : ∃ k ks,
    (segments ts).map segmentCommand = k :: ks ∧ commandOf ts = joined k ks := by
  rw [segments_eq, commandOf_eq]
  exact ⟨_, _, rfl, rfl⟩

theorem commandOf_of_marks (hc : ∀ k ∈ c.segments, k.IsSegment limit)
    (h : ts.map Token.mark = c.marks) : commandOf ts = c := by
  obtain ⟨k, ks, hks, hcommand⟩ := exists_joined_commandOf ts
  obtain ⟨k', ks', hks', hc'⟩ := c.exists_joined
  obtain ⟨rfl, rfl⟩ := List.cons.inj (hks.symm.trans ((segments_of_marks hc h).1.trans hks'))
  rw [hcommand, hc']

/-- There is more than one segment exactly where there is a pipe. -/
theorem one_lt_length_segments_iff : 1 < (segments ts).length ↔ ∃ t ∈ ts, t.isPipe = true := by
  rw [segments_eq, List.length_cons, Nat.lt_add_left_iff_pos, ← fromPipe_ne_nil_iff]
  cases hf : fromPipe ts with
  | nil => simp [segments]
  | cons t us =>
    rw [tail_segments_cons (eq_untilPipe_append hf).2, segments_eq us]
    simp

theorem unwrap_segmentCommand (s : List Token) :
    (segmentCommand s).unwrap = (.exec (arguments s), redirections s) :=
  unwrap_wrap _ _

/-- Tokens with the marks of a canonical command are grammatical. -/
theorem grammatical_of_marks (hc : c.Canonical limit) (h : ts.map Token.mark = c.marks) :
    Grammatical limit ts := by
  obtain ⟨hmap, hnamed⟩ := segments_of_marks hc.segment h
  have hmem : ∀ s ∈ segments ts, segmentCommand s ∈ c.segments := by
    intro s hs
    rw [← hmap]
    exact List.mem_map_of_mem hs
  refine ⟨hnamed, fun s hs => ?_, fun hpipe s hs hnil => ?_⟩
  · exact (isSegment_wrap_iff.mp (hc.segment _ (hmem s hs))).2.1
  · have hmany : 1 < c.segments.length := by
      rw [← hmap, List.length_map]
      exact one_lt_length_segments_iff.mpr hpipe
    refine hc.named hmany _ (hmem s hs) ?_
    rw [unwrap_segmentCommand, hnil]

/-! ## The command of a line is canonical -/

theorem isPlainWord_of_token? {c : Cursor} (h : c.token? = some t) (hw : t.isWord = true) :
    IsPlainWord t.text := by
  refine ⟨(Cursor.text_ne_nil_of_token? h).1, fun b hb => ?_⟩
  unfold Cursor.token? at h
  split at h
  · cases h
  split at h
  · obtain rfl := Option.some.inj h
    cases hw
  split at h
  · cases h
  · obtain rfl := Option.some.inj h
    exact isWordByte_iff.mp (List.mem_takeWhile_imp hb)

/-- The words of a line are plain. -/
theorem isPlainWord_of_mem_tokens (c : Cursor) (ht : t ∈ c.tokens) (hw : t.isWord = true) :
    IsPlainWord t.text := by
  fun_induction Cursor.tokens c with
  | case1 c c' h => cases ht
  | case2 c u c' h ih =>
    rcases List.mem_cons.mp ht with rfl | ht
    · rw [← Cursor.next_skip, Cursor.next, Cursor.skip_skip] at h
      split at h
      · cases h
      · rename_i v hv
        obtain rfl := Option.some.inj (Prod.mk.inj h).1
        exact isPlainWord_of_token? hv hw
    · exact ih ht

theorem mem_of_mem_withPrevious {previous : Option Token} {x : Option Token × Token}
    (h : x ∈ withPrevious previous ts) : x.2 ∈ ts :=
  (List.of_mem_zip h).2

/-- An argument is a word of the segment. -/
theorem exists_word_of_mem_arguments {w : Bytes} (h : w ∈ arguments s) :
    ∃ t ∈ s, t.isWord = true ∧ t.text = w := by
  obtain ⟨x, hx, hw⟩ := List.mem_filterMap.mp h
  unfold argument? at hw
  split at hw
  · rename_i hword
    rw [Bool.and_eq_true] at hword
    exact ⟨x.2, mem_of_mem_withPrevious hx, hword.1, Option.some.inj hw⟩
  · cases hw

/-- The file of a redirection is a word of the segment, and the descriptor is that of the
direction. -/
theorem exists_file_of_mem_redirections {r : Redirection} (h : r ∈ redirections s) :
    (∃ t ∈ s, t.isWord = true ∧ t.text = r.path) ∧ r.descriptor = r.direction.descriptor := by
  obtain ⟨x, hx, hr⟩ := List.mem_filterMap.mp h
  obtain ⟨symbol, -, hr⟩ := Option.bind_eq_some_iff.mp hr
  have hmem := mem_of_mem_withPrevious hx
  unfold Token.redirection? at hr
  split at hr
  · rename_i hfile
    obtain rfl := Option.some.inj hr
    exact ⟨⟨x.2, hmem, by rw [Token.isWord, hfile]; rfl, rfl⟩, rfl⟩
  · rename_i hfile
    obtain rfl := Option.some.inj hr
    exact ⟨⟨x.2, hmem, by rw [Token.isWord, hfile]; rfl, rfl⟩, rfl⟩
  · cases hr

theorem canonical_commandOf (hg : Grammatical limit ts)
    (hplain : ∀ t ∈ ts, t.isWord = true → IsPlainWord t.text) : (commandOf ts).Canonical limit := by
  have hsegment : ∀ s ∈ segments ts, (segmentCommand s).IsSegment limit := by
    intro s hs
    refine isSegment_wrap_iff.mpr ⟨fun w hw => ?_, hg.withinLimit s hs, fun r hr => ?_⟩
    · obtain ⟨t, ht, hword, rfl⟩ := exists_word_of_mem_arguments hw
      exact hplain t (mem_of_mem_segments hs ht).1 hword
    · obtain ⟨⟨t, ht, hword, htext⟩, hd⟩ := exists_file_of_mem_redirections hr
      exact ⟨htext ▸ hplain t (mem_of_mem_segments hs ht).1 hword, hd⟩
  obtain ⟨k, ks, hks, hcommand⟩ := exists_joined_commandOf ts
  have hall : ∀ d ∈ k :: ks, ∃ s ∈ segments ts, segmentCommand s = d := by
    intro d hd
    rw [← hks] at hd
    exact List.mem_map.mp hd
  have hsegments : (commandOf ts).segments = k :: ks := by
    rw [hcommand]
    refine segments_joined fun d hd => ?_
    obtain ⟨s, hs, rfl⟩ := hall d hd
    exact (hsegment s hs).segments_eq
  refine ⟨fun d hd => ?_, fun hmany d hd hnil => ?_⟩
  · obtain ⟨s, hs, rfl⟩ := hall d (hsegments ▸ hd)
    exact hsegment s hs
  · obtain ⟨s, hs, rfl⟩ := hall d (hsegments ▸ hd)
    rw [hsegments, ← hks, List.length_map] at hmany
    rw [unwrap_segmentCommand] at hnil
    exact hg.programNamed (one_lt_length_segments_iff.mp hmany) s hs (Command.exec.inj hnil)

/-! ## Reading and writing -/

/-- A line that is read has grammatical tokens, and the command that they write. -/
theorem parse_eq_ok (h : parse limit line = .ok c) :
    Grammatical limit (tokenize line) ∧ c = commandOf (tokenize line) := by
  have hline := line_outcome limit (Cursor.ofLine line)
  unfold parse at h
  rcases hr : Parser.line limit (Cursor.ofLine line) with ⟨e | r, d⟩
  · rw [hr] at h
    cases h
  · rw [hr] at h hline
    obtain rfl := Except.ok.inj h
    exact ⟨hline.1, hline.2.1⟩

/-- A line with grammatical tokens is read. -/
theorem parse_of_grammatical (h : Grammatical limit (tokenize line)) :
    parse limit line = .ok (commandOf (tokenize line)) := by
  have hline := line_outcome limit (Cursor.ofLine line)
  unfold parse
  rcases hr : Parser.line limit (Cursor.ofLine line) with ⟨e | r, d⟩
  · rw [hr] at hline
    exact absurd h hline
  · rw [hr] at hline
    exact congrArg Except.ok hline.2.1

/-- What a canonical command is written as is read as that command. -/
theorem parse_print_of_canonical (h : c.Canonical limit) : parse limit c.print = .ok c := by
  have hmarks := map_mark_tokenize_print h.segment
  rw [parse_of_grammatical (grammatical_of_marks h hmarks), commandOf_of_marks h.segment hmarks]

/-- Every canonical command is read from what it is written as ; every command that is read from a line
is canonical, and so is read from what it is written as ; and canonical commands that are written alike
are the same. -/
theorem parse_print (limit : Nat) :
    (∀ c : Command, c.Canonical limit → parse limit c.print = .ok c) ∧
    (∀ line c, parse limit line = .ok c → c.Canonical limit ∧ parse limit c.print = .ok c) ∧
    ∀ c d : Command, c.Canonical limit → d.Canonical limit → c.print = d.print → c = d := by
  refine ⟨fun c => parse_print_of_canonical, fun line c h => ?_, fun c d hc hd heq => ?_⟩
  · obtain ⟨hg, rfl⟩ := parse_eq_ok h
    have hcanonical := canonical_commandOf hg fun t => isPlainWord_of_mem_tokens _
    exact ⟨hcanonical, parse_print_of_canonical hcanonical⟩
  · have hread := parse_print_of_canonical hc
    rw [heq, parse_print_of_canonical hd] at hread
    exact (Except.ok.inj hread).symm

/-- A pipe behind a redirection is read as it is written. -/
theorem parse_print_piped : ∃ c : Command,
    c.Canonical 10 ∧ c.print = Utf8.ofString "a b < f | c" ∧
      parse 10 (Utf8.ofString "a b < f | c") = .ok c := by
  let c : Command :=
    .pipe (.redirect (.exec [[0x61], [0x62]]) ⟨.input, [0x66], 0⟩) (.exec [[0x63]])
  have hc : c.Canonical 10 := by decide +kernel
  have htext : c.print = Utf8.ofString "a b < f | c" := by decide +kernel
  exact ⟨c, hc, htext, htext ▸ (parse_print 10).1 c hc⟩

end Grammar

end LineShell
