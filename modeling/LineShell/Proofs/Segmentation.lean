import LineShell.Proofs.Locating
import LineShell.Proofs.Printing

/-!
# The tokens of a line as its only segmentation

`Segments bytes p ts` : from the offset `p` on, `bytes` are divided into the tokens `ts` and
separators between them. The first token of a segmentation leads (`Leads`) : nothing but separators
stands in front of it, and it goes on as far as it can. The others segment what is behind it
(`segments_cons_iff`), and a token leads exactly if a cursor comes to it next (`leads_iff`).

`tokenize_eq_iff` : the tokens of a line segment it, and no other list of tokens does.
-/

namespace LineShell

variable {bytes w : Bytes} {p q : Nat} {b : UInt8} {s : Symbol} {t : Token} {ts : List Token}

/-! ## Segmentations -/

/-- Space, tab, carriage return, line feed and vertical tab. -/
def separators : List UInt8 := [0x20, 0x09, 0x0D, 0x0A, 0x0B]

theorem isSeparator_iff : isSeparator b = true ↔ b ∈ separators := by
  simp [isSeparator, separators, or_assoc]

theorem mem_reserved_of_mem_separators (h : b ∈ separators) : b ∈ reserved := by
  simp only [separators, reserved, List.mem_cons, List.not_mem_nil, or_false] at h ⊢
  tauto

/-- The bytes that can be a token of a kind. -/
inductive Token.Spelled : Token.Kind → Bytes → Prop
  | word {w : Bytes} (h : ∀ b ∈ w, b ∉ reserved) : Spelled .word w
  | pipe : Spelled (.symbol .pipe) [0x7C]
  | input : Spelled (.symbol .input) [0x3C]
  | output : Spelled (.symbol .output) [0x3E]

/-- The tokens `ts` divide `bytes` from the offset `p` on. -/
structure Segments (bytes : Bytes) (p : Nat) (ts : List Token) : Prop where
  from_le : ∀ t ∈ ts, p ≤ t.start
  nonempty : ∀ t ∈ ts, t.start < t.stop
  /-- The tokens do not overlap, and stand in order. -/
  ordered : ts.Pairwise fun t u => t.stop ≤ u.start
  text_eq : ∀ t ∈ ts, t.text = (bytes.take t.stop).drop t.start
  /-- A byte that belongs to no token is a separator. -/
  gaps : ∀ i b, p ≤ i → bytes[i]? = some b → (∀ t ∈ ts, ¬(t.start ≤ i ∧ i < t.stop)) →
    b ∈ separators
  spelled : ∀ t ∈ ts, Token.Spelled t.kind t.text
  /-- No word begins where another one ends. -/
  apart : ∀ t ∈ ts, ∀ u ∈ ts, t.isWord = true → u.isWord = true → t.stop ≠ u.start

/-- `t` is a token from the offset `p` on, with nothing but separators in front of it. If it is a
word, it does not go on. -/
structure Leads (bytes : Bytes) (p : Nat) (t : Token) : Prop where
  from_le : p ≤ t.start
  nonempty : t.start < t.stop
  text_eq : t.text = (bytes.take t.stop).drop t.start
  blank : ∀ i b, p ≤ i → i < t.start → bytes[i]? = some b → b ∈ separators
  spelled : Token.Spelled t.kind t.text
  munch : t.isWord = true → ∀ b, bytes[t.stop]? = some b → b ∈ reserved

namespace Token

theorem spelled_word_iff : Spelled .word w ↔ ∀ b ∈ w, b ∉ reserved :=
  ⟨fun | .word h => h, .word⟩

theorem spelled_symbol_iff : Spelled (.symbol s) w ↔ w = [s.byte] := by
  constructor
  · rintro ⟨⟩ <;> rfl
  · rintro rfl
    cases s
    · exact .pipe
    · exact .input
    · exact .output

/-- The bytes of a word are free, and a symbol is not. -/
theorem Spelled.mem_reserved_iff (h : Spelled t.kind t.text) (hb : b ∈ t.text) :
    b ∈ reserved ↔ t.isWord = false := by
  cases hk : t.kind with
  | word =>
    rw [hk] at h
    simp [isWord, hk, spelled_word_iff.mp h b hb]
  | symbol s =>
    rw [hk] at h
    rw [spelled_symbol_iff.mp h, List.mem_singleton] at hb
    subst hb
    have hs : s.byte ∈ reserved := by cases s <;> decide
    simp [isWord, hk, hs]

theorem Spelled.not_isSeparator (h : Spelled t.kind t.text) (hb : b ∈ t.text) :
    isSeparator b = false := by
  rw [← Bool.not_eq_true, isSeparator_iff]
  cases hk : t.kind with
  | word =>
    rw [hk] at h
    exact fun hsep => spelled_word_iff.mp h b hb (mem_reserved_of_mem_separators hsep)
  | symbol s =>
    rw [hk] at h
    rw [spelled_symbol_iff.mp h, List.mem_singleton] at hb
    subst hb
    cases s <;> decide

theorem text_eq_iff : t.text = (bytes.take t.stop).drop t.start ↔ t.text <+: bytes.drop t.start := by
  rw [List.prefix_iff_eq_take, stop, List.drop_take, Nat.add_sub_cancel_left]

/-- A byte inside a token is one of its own. -/
theorem mem_text_of_text_eq (h : t.text = (bytes.take t.stop).drop t.start) {i : Nat}
    (hle : t.start ≤ i) (hlt : i < t.stop) (hb : bytes[i]? = some b) : b ∈ t.text := by
  refine List.mem_of_getElem? (i := i - t.start) ?_
  rw [h, List.getElem?_drop, List.getElem?_take, Nat.add_sub_cancel' hle, if_pos hlt, hb]

theorem exists_getElem?_start (h : t.text = (bytes.take t.stop).drop t.start)
    (hne : t.start < t.stop) : ∃ b ∈ t.text, bytes[t.start]? = some b := by
  have hlen : t.start < bytes.length := by
    have hsub := congrArg List.length h
    simp only [List.length_drop, List.length_take] at hsub
    unfold stop at hne
    omega
  have hb : bytes[t.start]? = some bytes[t.start] := List.getElem?_eq_getElem hlen
  exact ⟨_, mem_text_of_text_eq h (Nat.le_refl _) hne hb, hb⟩

end Token

theorem Segments.leads (h : Segments bytes p (t :: ts)) : Leads bytes p t := by
  have hmem : t ∈ t :: ts := List.mem_cons_self
  have hbehind := (List.pairwise_cons.mp h.ordered).1
  have hne := h.nonempty t hmem
  refine ⟨h.from_le t hmem, hne, h.text_eq t hmem, fun i b hp hi hb => ?_, h.spelled t hmem,
    fun hw b hb => ?_⟩
  · refine h.gaps i b hp hb fun u hu => ?_
    rcases List.mem_cons.mp hu with rfl | hu
    · omega
    · have := hbehind u hu
      omega
  · by_cases hin : ∃ u ∈ ts, u.start ≤ t.stop ∧ t.stop < u.stop
    · -- the byte behind the word begins another token, which is no word
      obtain ⟨u, hu, hle, hlt⟩ := hin
      have humem : u ∈ t :: ts := List.mem_cons_of_mem t hu
      have hstart : t.stop = u.start := Nat.le_antisymm (hbehind u hu) hle
      have hu' : u.isWord = false := by
        by_contra hword
        exact h.apart t hmem u humem hw (by simpa using hword) hstart
      exact ((h.spelled u humem).mem_reserved_iff
        (Token.mem_text_of_text_eq (h.text_eq u humem) hle hlt hb)).mpr hu'
    · refine mem_reserved_of_mem_separators (h.gaps t.stop b ?_ hb fun u hu => ?_)
      · have := h.from_le t hmem
        omega
      · rcases List.mem_cons.mp hu with rfl | hu
        · omega
        · exact fun hin' => hin ⟨u, hu, hin'⟩

theorem Segments.tail (h : Segments bytes p (t :: ts)) : Segments bytes t.stop ts := by
  obtain ⟨hbehind, hordered⟩ := List.pairwise_cons.mp h.ordered
  have hmem : t ∈ t :: ts := List.mem_cons_self
  have hsub : ∀ {u}, u ∈ ts → u ∈ t :: ts := fun hu => List.mem_cons_of_mem t hu
  refine ⟨hbehind, fun u hu => h.nonempty u (hsub hu), hordered, fun u hu => h.text_eq u (hsub hu),
    fun i b hi hb hno => ?_, fun u hu => h.spelled u (hsub hu),
    fun u hu v hv => h.apart u (hsub hu) v (hsub hv)⟩
  have hp := h.from_le t hmem
  have hne := h.nonempty t hmem
  refine h.gaps i b (by omega) hb fun u hu => ?_
  rcases List.mem_cons.mp hu with rfl | hu
  · omega
  · exact hno u hu

theorem Leads.segments (h : Leads bytes p t) (hts : Segments bytes t.stop ts) :
    Segments bytes p (t :: ts) := by
  have hp := h.from_le
  have hne := h.nonempty
  refine ⟨?_, ?_, ?_, ?_, ?_, ?_, ?_⟩
  · refine List.forall_mem_cons.mpr ⟨hp, fun u hu => ?_⟩
    have := hts.from_le u hu
    omega
  · exact List.forall_mem_cons.mpr ⟨hne, hts.nonempty⟩
  · exact List.pairwise_cons.mpr ⟨hts.from_le, hts.ordered⟩
  · exact List.forall_mem_cons.mpr ⟨h.text_eq, hts.text_eq⟩
  · intro i b hi hb hno
    obtain ⟨ht, hno⟩ := List.forall_mem_cons.mp hno
    rcases Nat.lt_or_ge i t.start with hlt | hge
    · exact h.blank i b hi hlt hb
    · exact hts.gaps i b (by omega) hb hno
  · exact List.forall_mem_cons.mpr ⟨h.spelled, hts.spelled⟩
  · have hlater : ∀ v ∈ ts, v.isWord = true → t.isWord = true → t.stop ≠ v.start := by
      -- a word that began here would be the same word going on
      intro v hv hwv hwt heq
      obtain ⟨b, hb, hline⟩ := Token.exists_getElem?_start (hts.text_eq v hv) (hts.nonempty v hv)
      have hres := h.munch hwt b (heq ▸ hline)
      rw [((hts.spelled v hv).mem_reserved_iff hb).mp hres] at hwv
      cases hwv
    intro u hu v hv hwu hwv
    rcases List.mem_cons.mp hu with rfl | hu' <;> rcases List.mem_cons.mp hv with rfl | hv'
    · omega
    · exact hlater v hv' hwv hwu
    · have := hts.from_le u hu'
      have := hts.nonempty u hu'
      omega
    · exact hts.apart u hu' v hv' hwu hwv

/-- A segmentation is a token that leads, and a segmentation of what is behind it. -/
theorem segments_cons_iff :
    Segments bytes p (t :: ts) ↔ Leads bytes p t ∧ Segments bytes t.stop ts :=
  ⟨fun h => ⟨h.leads, h.tail⟩, fun h => h.1.segments h.2⟩

theorem segments_nil_iff : Segments bytes p [] ↔ ∀ b ∈ bytes.drop p, b ∈ separators := by
  constructor
  · intro h b hb
    obtain ⟨i, hi⟩ := List.getElem?_of_mem hb
    rw [List.getElem?_drop] at hi
    exact h.gaps (p + i) b (Nat.le_add_right p i) hi (by simp)
  · intro h
    refine ⟨by simp, by simp, .nil, by simp, fun i b hp hb _ => h b ?_, by simp, by simp⟩
    refine List.mem_of_getElem? (i := i - p) ?_
    rw [List.getElem?_drop, Nat.add_sub_cancel' hp, hb]

/-! ## What a cursor comes to next -/

namespace Cursor

variable {c : Cursor}

/-- The cursor at the offset `p` of `bytes`. -/
def inLine (bytes : Bytes) (p : Nat) : Cursor := ⟨p, bytes.drop p⟩

theorem advance_inLine (n : Nat) : (inLine bytes p).advance n = inLine bytes (p + n) := by
  simp [inLine, advance]

/-- Between an offset and the token that leads from there stand the separators. -/
theorem skip_inLine (h : Leads bytes p t) : (inLine bytes p).skip = inLine bytes t.start := by
  obtain ⟨b, hb, hline⟩ := Token.exists_getElem?_start h.text_eq h.nonempty
  obtain ⟨n, hn⟩ := Nat.exists_eq_add_of_le h.from_le
  have hlen : t.start < bytes.length := (List.getElem?_eq_some_iff.mp hline).1
  have hblank : ∀ x ∈ (bytes.drop p).take n, isSeparator x = true := by
    intro x hx
    obtain ⟨i, hi, hget⟩ := List.getElem_of_mem hx
    rw [List.length_take] at hi
    refine isSeparator_iff.mpr (h.blank (p + i) x (by omega) (by omega) ?_)
    rw [← hget, List.getElem_take, List.getElem_drop, List.getElem?_eq_getElem]
  have hstop : (bytes.drop t.start).takeWhile isSeparator = [] := by
    rw [List.drop_eq_getElem_cons hlen]
    have hfree := h.spelled.not_isSeparator hb
    rw [List.getElem?_eq_getElem hlen, Option.some.injEq] at hline
    simp [hline, hfree]
  have htake : ((inLine bytes p).rest.takeWhile isSeparator).length = n := by
    rw [inLine, ← List.take_append_drop n (bytes.drop p), List.takeWhile_append_of_pos hblank,
      List.drop_drop, ← hn, hstop, List.append_nil, List.length_take, List.length_drop]
    omega
  rw [skip, htake, advance_inLine, hn]

/-- A token that leads stands behind the separators. -/
theorem token?_skip_inLine (h : Leads bytes p t) : (inLine bytes p).skip.token? = some t := by
  obtain ⟨r, hr⟩ := Token.text_eq_iff.mp h.text_eq
  have hmunch : t.isWord = true → r.takeWhile isWordByte = [] := by
    intro hw
    cases r with
    | nil => rfl
    | cons b r =>
      have hb : bytes[t.stop]? = some b := by
        rw [Token.stop, ← List.getElem?_drop, ← hr, List.getElem?_append_right (Nat.le_refl _),
          Nat.sub_self]
        rfl
      have hword : isWordByte b = false := by
        rw [← Bool.not_eq_true, isWordByte_iff, not_not]
        exact h.munch hw b hb
      simp [hword]
  rw [skip_inLine h]
  have hne := h.nonempty
  have hspelled := h.spelled
  obtain ⟨kind, text, start⟩ := t
  obtain ⟨b, bs, rfl⟩ : ∃ b bs, text = b :: bs := by
    refine List.exists_cons_of_ne_nil ?_
    rintro rfl
    exact absurd hne (Nat.lt_irrefl _)
  cases kind with
  | word =>
    have hall : ∀ x ∈ b :: bs, isWordByte x = true := fun x hx =>
      isWordByte_iff.mpr (Token.spelled_word_iff.mp hspelled x hx)
    have htake : (bytes.drop start).takeWhile isWordByte = b :: bs := by
      rw [← hr, List.takeWhile_append_of_pos hall, hmunch rfl, List.append_nil]
    rw [token?_of_isWordByte (c := inLine bytes start) hr.symm (hall b List.mem_cons_self)]
    simp [inLine, htake]
  | symbol s =>
    obtain ⟨rfl, rfl⟩ : b = s.byte ∧ bs = [] := by
      simpa using Token.spelled_symbol_iff.mp hspelled
    simp [token?, inLine, ← hr]

/-- The token on which a cursor stands is spelled as it should be, and if it is a word, it does not
go on. -/
theorem spelled_of_token? (h : c.token? = some t) : Token.Spelled t.kind t.text ∧
    (t.isWord = true → ∀ b ∈ (c.rest.drop t.text.length).head?, b ∈ reserved) := by
  unfold token? at h
  split at h
  · cases h
  · rename_i b r hr
    split at h
    · rename_i s hs
      cases h
      refine ⟨Token.spelled_symbol_iff.mpr (by rw [Symbol.byte_of_ofByte? hs]), fun hw => ?_⟩
      cases hw
    · split at h
      · cases h
      · cases h
        refine ⟨.word fun x hx => isWordByte_iff.mp (List.mem_takeWhile_imp hx), fun _ x hx => ?_⟩
        have hdrop : c.rest.drop (c.rest.takeWhile isWordByte).length =
            c.rest.dropWhile isWordByte := by
          conv_lhs => arg 2; rw [← List.takeWhile_append_dropWhile (p := isWordByte) (l := c.rest)]
          exact List.drop_left
        rw [hr] at hdrop
        rw [hr, hdrop] at hx
        by_contra hfree
        have hno := List.head?_dropWhile_not isWordByte (b :: r)
        rw [Option.mem_def.mp hx] at hno
        simp [isWordByte_iff.mpr hfree] at hno

/-- A token behind the separators leads. -/
theorem leads_of_token? (h : (inLine bytes p).skip.token? = some t) : Leads bytes p t := by
  obtain ⟨hspelled, hmunch⟩ := spelled_of_token? h
  have hstart : t.start = p + ((bytes.drop p).takeWhile isSeparator).length := start_of_token? h
  have hskip : (inLine bytes p).skip = inLine bytes t.start := by
    rw [hstart]
    exact advance_inLine _
  rw [hskip] at h hmunch
  refine ⟨hstart ▸ Nat.le_add_right _ _, ?_, Token.text_eq_iff.mpr (text_prefix_of_token? h),
    fun i b hp hi hb => ?_, hspelled, fun hw b hb => hmunch hw b ?_⟩
  · have := List.length_pos_iff.mpr (text_ne_nil_of_token? h).1
    unfold Token.stop
    omega
  · have hmem : b ∈ (bytes.drop p).takeWhile isSeparator := by
      rw [List.prefix_iff_eq_take.mp (List.takeWhile_prefix isSeparator)]
      refine List.mem_of_getElem? (i := i - p) ?_
      rw [List.getElem?_take, if_pos (by omega), List.getElem?_drop, Nat.add_sub_cancel' hp, hb]
    exact isSeparator_iff.mp (List.mem_takeWhile_imp hmem)
  · rw [inLine, List.drop_drop, List.head?_drop]
    exact hb

theorem leads_iff : Leads bytes p t ↔ (inLine bytes p).skip.token? = some t :=
  ⟨token?_skip_inLine, leads_of_token?⟩

/-- The tokens of a cursor are the one that it comes to next, and those behind that. -/
theorem tokens_eq_cons_iff : c.tokens = t :: ts ↔
    c.skip.token? = some t ∧ (c.skip.advance t.text.length).tokens = ts := by
  cases ht : c.skip.token? with
  | none =>
    rw [tokens_eq_nil_iff.mpr (token?_skip_eq_none_iff.mp ht)]
    simp
  | some u =>
    have hn : c.next = (some u, (c.skip.advance u.text.length).skip) := by rw [next, ht]
    rw [tokens_of_next_some hn, tokens_skip, List.cons.injEq, Option.some.injEq]
    constructor
    · rintro ⟨rfl, h⟩
      exact ⟨rfl, h⟩
    · rintro ⟨rfl, h⟩
      exact ⟨rfl, h⟩

/-- The tokens from an offset on are the segmentation from there on. -/
theorem tokens_inLine_eq_iff : (inLine bytes p).tokens = ts ↔ Segments bytes p ts := by
  induction ts generalizing p with
  | nil =>
    rw [segments_nil_iff, tokens_eq_nil_iff, rest_skip, List.dropWhile_eq_nil_iff]
    simp only [isSeparator_iff, inLine]
  | cons t ts ih =>
    rw [segments_cons_iff, leads_iff, tokens_eq_cons_iff, ← ih]
    refine and_congr_right fun ht => ?_
    rw [← leads_iff] at ht
    rw [skip_inLine ht, advance_inLine, Token.stop]

end Cursor

/-- The tokens of a line are its one segmentation : they are not empty, do not overlap and stand in
order, each is what the line has between its ends, only separators stand outside of them, a symbol
is its one byte, no word holds a separator or a symbol, and no word begins where another ends. Any
list of tokens of which all this is true is the tokens of the line. -/
theorem tokenize_eq_iff (line : Bytes) (ts : List Token) :
    tokenize line = ts ↔ Segments line 0 ts :=
  Cursor.tokens_inLine_eq_iff

end LineShell
