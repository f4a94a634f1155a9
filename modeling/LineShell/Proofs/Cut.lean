import LineShell.Proofs.Cursor
import Mathlib.Data.List.DropRight

/-!
# Lines cut at a pipe

`c.before rest` is the cursor `c` with a pipe behind its bytes and `rest` behind the pipe.
No token goes over the pipe, so its tokens are those of `c`, the pipe, and those of `rest`
(`tokens_before`), and wherever a pipe stands among the tokens of a cursor, the cursor is
of that form (`exists_before`). So the tokens up to a pipe stay when the text behind it is
changed (`tokenize_take_append`).
-/

namespace LineShell

namespace Cursor

variable {c c' : Cursor} {t : Token}

/-- The cursor with a pipe behind its bytes, and `rest` behind the pipe. -/
def before (c : Cursor) (rest : Bytes) : Cursor :=
  ⟨c.position, c.rest ++ Symbol.pipe.byte :: rest⟩

/-- The pipe token at an offset. -/
def pipeAt (position : Nat) : Token := ⟨.symbol .pipe, [Symbol.pipe.byte], position⟩

/-- The offset at which the line ends. -/
def stop (c : Cursor) : Nat := c.position + c.rest.length

theorem before_inj {d : Cursor} {r : Bytes} (h : c.before r = d.before r) : c = d := by
  obtain ⟨p, x⟩ := c
  obtain ⟨p', x'⟩ := d
  simpa [before] using h

/-! ## Moving in front of the pipe -/

/-- No run of separators, and no word, goes over a pipe. -/
theorem takeWhile_append_pipe {p : UInt8 → Bool} (hp : p Symbol.pipe.byte = false) (pre r : Bytes) :
    (pre ++ Symbol.pipe.byte :: r).takeWhile p = pre.takeWhile p := by
  induction pre with
  | nil => simp [hp]
  | cons b pre ih => cases hb : p b <;> simp [hb, ih]

theorem skip_before (c : Cursor) (r : Bytes) : (c.before r).skip = c.skip.before r := by
  have hs : isSeparator Symbol.pipe.byte = false := rfl
  have hle := (List.takeWhile_prefix (l := c.rest) isSeparator).length_le
  simp only [skip, before, advance, takeWhile_append_pipe hs, List.drop_append_of_le_length hle]

theorem token?_before (h : c.rest ≠ []) (r : Bytes) : (c.before r).token? = c.token? := by
  have hw : isWordByte Symbol.pipe.byte = false := rfl
  obtain ⟨b, pre, hr⟩ := List.exists_cons_of_ne_nil h
  have hb : (c.before r).rest = b :: (pre ++ Symbol.pipe.byte :: r) := by rw [before, hr]; rfl
  have htake : (c.before r).rest.takeWhile isWordByte = c.rest.takeWhile isWordByte :=
    takeWhile_append_pipe hw c.rest r
  rw [token?, token?, htake, hr, hb]
  rfl

theorem token?_before_of_nil (h : c.rest = []) (r : Bytes) :
    (c.before r).token? = some (pipeAt c.position) := by
  simp only [token?, before, h, List.nil_append]
  rfl

theorem text_prefix_of_token? (h : c.token? = some t) : t.text <+: c.rest := by
  unfold token? at h
  split at h
  · cases h
  · rename_i b r hr
    split at h
    · cases h
      simp [hr]
    · split at h
      · cases h
      · cases h
        rw [hr]
        exact List.takeWhile_prefix _

theorem advance_before {n : Nat} (h : n ≤ c.rest.length) (r : Bytes) :
    (c.before r).advance n = (c.advance n).before r := by
  simp only [advance, before, List.drop_append_of_le_length h]

theorem stop_advance {n : Nat} (h : n ≤ c.rest.length) : (c.advance n).stop = c.stop := by
  simp only [stop, advance, List.length_drop]
  omega

theorem stop_skip (c : Cursor) : c.skip.stop = c.stop :=
  stop_advance (List.takeWhile_prefix isSeparator).length_le

theorem stop_of_next {t? : Option Token} (h : c.next = (t?, c')) : c'.stop = c.stop := by
  unfold next at h
  split at h
  · cases h
    exact stop_skip c
  · rename_i u hu
    cases h
    rw [stop_skip, stop_advance (text_prefix_of_token? hu).length_le, stop_skip]

theorem rest_suffix_of_next {t? : Option Token} (h : c.next = (t?, c')) : c'.rest <:+ c.rest := by
  unfold next at h
  split at h
  · cases h
    exact List.drop_suffix _ _
  · cases h
    exact (List.drop_suffix _ _).trans ((List.drop_suffix _ _).trans (List.drop_suffix _ _))

theorem next_before_of_some (h : c.next = (some t, c')) (r : Bytes) :
    (c.before r).next = (some t, c'.before r) := by
  cases ht : c.skip.token? with
  | none =>
    rw [next, ht] at h
    cases h
  | some u =>
    have hrest := (text_ne_nil_of_token? ht).2
    have hle := (text_prefix_of_token? ht).length_le
    rw [next, ht] at h
    obtain ⟨rfl, rfl⟩ : u = t ∧ (c.skip.advance u.text.length).skip = c' := by simpa using h
    simp only [next, skip_before, token?_before hrest, ht, advance_before hle]

theorem next_before_of_none (h : c.next = (none, c')) (r : Bytes) :
    (c.before r).next = (some (pipeAt c.stop), (⟨c.stop + 1, r⟩ : Cursor).skip) := by
  have hnil : c.skip.rest = [] := tokens_eq_nil_iff.mp (tokens_of_next_none h)
  have hpos : c.skip.position = c.stop := by
    rw [← stop_skip, stop, hnil, List.length_nil, Nat.add_zero]
  rw [next, skip_before, token?_before_of_nil hnil, hpos]
  simp [pipeAt, advance, before, hnil, hpos]

/-! ## The tokens on both sides of the pipe -/

/-- The tokens of a line with a pipe in it : those before the pipe, the pipe, and those
behind it. -/
theorem tokens_before (c : Cursor) (r : Bytes) : (c.before r).tokens =
    c.tokens ++ pipeAt c.stop :: (⟨c.stop + 1, r⟩ : Cursor).tokens := by
  fun_induction tokens c with
  | case1 c d hn =>
    rw [tokens_of_next_some (next_before_of_none hn r), tokens_skip]
    rfl
  | case2 c t d hn ih =>
    rw [tokens_of_next_some (next_before_of_some hn r), ih, stop_of_next hn]
    rfl

theorem next_of_tokens_cons {ts : List Token} (h : c.tokens = t :: ts) :
    ∃ c', c.next = (some t, c') ∧ c'.tokens = ts := by
  cases hn : c.next with
  | mk t? c' =>
    cases t? with
    | none =>
      rw [tokens_of_next_none hn] at h
      cases h
    | some u =>
      rw [tokens_of_next_some hn] at h
      obtain ⟨rfl, rfl⟩ := List.cons.inj h
      exact ⟨c', rfl, rfl⟩

/-- A line whose first token is a pipe is cut there. -/
theorem exists_before_of_token? (h : c.skip.token? = some t) (ht : t.kind = .symbol .pipe) :
    ∃ (d : Cursor) (r : Bytes), c = d.before r ∧ d.tokens = [] ∧ t = pipeAt d.stop := by
  have hhead := (kind_eq_symbol_iff_of_token? h .pipe).mp ht
  rw [head?_text_of_token? h] at hhead
  obtain ⟨r, hr⟩ := List.head?_eq_some_iff.mp hhead
  refine ⟨⟨c.position, c.rest.takeWhile isSeparator⟩, r, ?_, ?_, ?_⟩
  · obtain ⟨position, rest⟩ := c
    rw [rest_skip] at hr
    simp only [before, ← hr, List.takeWhile_append_dropWhile]
  · rw [tokens_eq_nil_iff, rest_skip, List.dropWhile_eq_nil_iff]
    exact fun b hb => List.mem_takeWhile_imp hb
  · rw [token?, hr] at h
    cases h
    rfl

/-- Where a pipe stands among the tokens, the line can be cut. -/
theorem exists_before {front back : List Token} (h : c.tokens = front ++ t :: back)
    (ht : t.kind = .symbol .pipe) :
    ∃ (d : Cursor) (r : Bytes), c = d.before r ∧ d.tokens = front ∧ t = pipeAt d.stop := by
  induction front generalizing c with
  | nil =>
    have hhead : c.skip.token? = some t := by rw [← head?_tokens, h]; rfl
    exact exists_before_of_token? hhead ht
  | cons f front ih =>
    obtain ⟨e, hn, he⟩ := next_of_tokens_cons h
    obtain ⟨d, r, rfl, hd, rfl⟩ := ih he
    obtain ⟨w, hw⟩ := rest_suffix_of_next hn
    have hc : c = (⟨c.position, w ++ d.rest⟩ : Cursor).before r := by
      obtain ⟨position, rest⟩ := c
      simp only [before, List.append_assoc, Cursor.mk.injEq, true_and]
      exact hw.symm
    have hstop : (⟨c.position, w ++ d.rest⟩ : Cursor).stop = d.stop := by
      have := stop_of_next hn
      rw [hc] at this
      simp only [stop, before, List.length_append, List.length_cons] at this ⊢
      omega
    refine ⟨⟨c.position, w ++ d.rest⟩, r, hc, ?_, by rw [hstop]⟩
    rcases hm : (⟨c.position, w ++ d.rest⟩ : Cursor).next with ⟨_ | u, e⟩ <;> rw [hc] at hn
    · -- the token would be the pipe itself, and the cursor behind it
      rw [next_before_of_none hm r] at hn
      have hlt := congrArg (List.length ∘ Cursor.rest) (Prod.mk.inj hn).2
      have hle := length_rest_skip_le ⟨(⟨c.position, w ++ d.rest⟩ : Cursor).stop + 1, r⟩
      simp only [Function.comp_apply, before, List.length_append, List.length_cons] at hlt hle
      omega
    · rw [next_before_of_some hm r] at hn
      obtain ⟨hu, he'⟩ := Prod.mk.inj hn
      cases hu
      rw [tokens_of_next_some hm, before_inj he', hd]

end Cursor

/-- The tokens up to a pipe do not depend on what stands behind it. -/
theorem tokenize_take_append {line : Bytes} {front back : List Token} {t : Token}
    (h : tokenize line = front ++ t :: back) (ht : t.kind = .symbol .pipe) (other : Bytes) :
    ∃ back', tokenize (line.take t.stop ++ other) = front ++ t :: back' := by
  obtain ⟨d, r, hc, rfl, rfl⟩ := Cursor.exists_before h ht
  obtain ⟨position, rest⟩ := d
  obtain ⟨rfl, rfl⟩ : 0 = position ∧ line = rest ++ Symbol.pipe.byte :: r := by
    simpa [Cursor.ofLine, Cursor.before] using hc
  have htake : (rest ++ Symbol.pipe.byte :: r).take (Cursor.pipeAt (⟨0, rest⟩ : Cursor).stop).stop =
      rest ++ [Symbol.pipe.byte] := by
    rw [List.take_append, List.take_of_length_le] <;> simp [Cursor.pipeAt, Cursor.stop, Token.stop]
  refine ⟨(⟨(⟨0, rest⟩ : Cursor).stop + 1, other⟩ : Cursor).tokens, ?_⟩
  rw [htake, List.append_assoc]
  exact Cursor.tokens_before ⟨0, rest⟩ other

end LineShell
