import LineShell.Token.Cursor

/-!
# Looking ahead and taking tokens

`Cursor.tokens` is what a cursor is going to give. Taking a token takes the first of
them (`tokens_of_next_some`), and skipping separators keeps them all (`tokens_skip`).
Looking ahead tells the first of them : `peek_iff` its first byte, `atEnd_iff` that
there is none. The first byte of a token tells its kind (`kind_eq_symbol_iff`), so a
cursor can see a pipe without taking it (`peek_symbol_iff`).
-/

namespace LineShell.Cursor

variable {c c' : Cursor} {t : Token}

/-! ## Separators -/

theorem rest_skip (c : Cursor) : c.skip.rest = c.rest.dropWhile isSeparator := by
  calc c.skip.rest
      = (c.rest.takeWhile isSeparator ++ c.rest.dropWhile isSeparator).drop
          (c.rest.takeWhile isSeparator).length := by rw [List.takeWhile_append_dropWhile]; rfl
    _ = c.rest.dropWhile isSeparator := List.drop_left

/-- Behind the separators there is no separator. -/
theorem not_isSeparator_of_head?_skip {b : UInt8} (h : c.skip.rest.head? = some b) :
    isSeparator b = false := by
  have hd := List.head?_dropWhile_not isSeparator c.rest
  rw [← rest_skip, h] at hd
  simpa using hd

theorem skip_skip (c : Cursor) : c.skip.skip = c.skip := by
  have h : c.skip.rest.takeWhile isSeparator = [] := by
    cases hr : c.skip.rest with
    | nil => rfl
    | cons b r =>
      have hb : isSeparator b = false := not_isSeparator_of_head?_skip (by rw [hr]; rfl)
      simp [hb]
  rw [skip, h]
  simp [advance]

/-! ## The token at the cursor -/

/-- Behind the separators stands a token, unless the line is at its end. -/
theorem token?_skip_eq_none_iff : c.skip.token? = none ↔ c.skip.rest = [] := by
  unfold token?
  cases hr : c.skip.rest with
  | nil => simp
  | cons b r =>
    have hb : isSeparator b = false := not_isSeparator_of_head?_skip (by rw [hr]; rfl)
    cases hs : Symbol.ofByte? b <;> simp [hs, hb]

/-- A token begins with the byte at the cursor. -/
theorem head?_text_of_token? (h : c.token? = some t) : t.text.head? = c.rest.head? := by
  unfold token? at h
  split at h
  · cases h
  · rename_i b r hr
    split at h
    · cases h
      rw [hr]
      rfl
    · rename_i hs
      split at h
      · cases h
      · rename_i hb
        cases h
        have hw : isWordByte b = true := by simpa [isWordByte, hs] using hb
        simp [hr, hw]

/-- The first byte of a token tells whether it is a symbol, and which. -/
theorem kind_eq_symbol_iff_of_token? (h : c.token? = some t) (s : Symbol) :
    t.kind = .symbol s ↔ t.text.head? = some s.byte := by
  rw [head?_text_of_token? h]
  unfold token? at h
  split at h
  · cases h
  · rename_i b r hr
    rw [hr, List.head?_cons, Option.some.injEq]
    split at h
    · rename_i u hu
      cases h
      constructor
      · intro hk
        cases hk
        exact (Symbol.byte_of_ofByte? hu).symm
      · rintro rfl
        rw [Symbol.ofByte?_byte] at hu
        cases hu
        rfl
    · rename_i hu
      split at h
      · cases h
      · cases h
        constructor
        · intro hk
          cases hk
        · rintro rfl
          simp at hu

/-! ## Taking tokens -/

theorem next_skip (c : Cursor) : c.skip.next = c.next := by
  rw [next, next, skip_skip]

theorem tokens_of_next_none (h : c.next = (none, c')) : c.tokens = [] := by
  rw [tokens]
  split
  · rfl
  · rename_i h'
    rw [h] at h'
    cases h'

theorem tokens_of_next_some (h : c.next = (some t, c')) : c.tokens = t :: c'.tokens := by
  rw [tokens]
  split
  · rename_i h'
    rw [h] at h'
    cases h'
  · rename_i h'
    rw [h] at h'
    cases h'
    rfl

/-- The tokens of a cursor, by its next step. -/
theorem tokens_eq_nil_iff : c.tokens = [] ↔ c.skip.rest = [] := by
  rw [← token?_skip_eq_none_iff]
  cases ht : c.skip.token? with
  | none =>
    have hn : c.next = (none, c.skip) := by rw [next, ht]
    simp [tokens_of_next_none hn]
  | some t =>
    have hn : c.next = (some t, (c.skip.advance t.text.length).skip) := by rw [next, ht]
    simp [tokens_of_next_some hn]

/-- The first token stands behind the separators. -/
theorem head?_tokens (c : Cursor) : c.tokens.head? = c.skip.token? := by
  cases ht : c.skip.token? with
  | none => rw [tokens_eq_nil_iff.mpr (token?_skip_eq_none_iff.mp ht), List.head?_nil]
  | some t =>
    have hn : c.next = (some t, (c.skip.advance t.text.length).skip) := by rw [next, ht]
    rw [tokens_of_next_some hn, List.head?_cons]

theorem tokens_skip (c : Cursor) : c.skip.tokens = c.tokens := by
  cases hn : c.next with
  | mk t c' =>
    cases t with
    | none => rw [tokens_of_next_none hn, tokens_of_next_none ((next_skip c).trans hn)]
    | some t => rw [tokens_of_next_some hn, tokens_of_next_some ((next_skip c).trans hn)]

/-! ## Looking ahead -/

theorem atEnd_iff : c.atEnd.1 = true ↔ c.tokens = [] := by
  rw [tokens_eq_nil_iff, atEnd, List.isEmpty_iff]

/-- Looking ahead tells the first byte of the first token. -/
theorem peek_iff {set : List UInt8} :
    (c.peek set).1 = true ↔
      ∃ t b, c.tokens.head? = some t ∧ t.text.head? = some b ∧ b ∈ set := by
  rw [peek, head?_tokens]
  constructor
  · intro h
    obtain ⟨b, hb, hset⟩ := (Option.any_eq_true _ _).mp h
    cases ht : c.skip.token? with
    | none => simp [token?_skip_eq_none_iff.mp ht] at hb
    | some t =>
      exact ⟨t, b, rfl, (head?_text_of_token? ht).trans hb, by simpa using hset⟩
  · rintro ⟨t, b, ht, hb, hset⟩
    rw [head?_text_of_token? ht] at hb
    simp [hb, hset]

/-- A symbol can be seen before it is taken. -/
theorem peek_symbol_iff {s : Symbol} :
    (c.peek [s.byte]).1 = true ↔ ∃ t ts, c.tokens = t :: ts ∧ t.kind = .symbol s := by
  rw [peek_iff]
  constructor
  · rintro ⟨t, b, ht, hb, hset⟩
    obtain ⟨ts, hts⟩ := List.head?_eq_some_iff.mp ht
    refine ⟨t, ts, hts, ?_⟩
    rw [head?_tokens] at ht
    rw [kind_eq_symbol_iff_of_token? ht, hb, List.mem_singleton.mp hset]
  · rintro ⟨t, ts, hts, hk⟩
    have ht : c.tokens.head? = some t := by rw [hts, List.head?_cons]
    refine ⟨t, s.byte, ht, ?_, List.mem_singleton.mpr rfl⟩
    rw [head?_tokens] at ht
    exact (kind_eq_symbol_iff_of_token? ht s).mp hk

theorem not_peek_of_next_none {s : Symbol} (hn : c.next = (none, c')) :
    ¬(c.peek [s.byte]).1 = true := by
  rw [peek_symbol_iff, tokens_of_next_none hn]
  simp

theorem kind_of_peek {s : Symbol} (hp : (c.peek [s.byte]).1 = true) (hn : c.next = (some t, c')) :
    t.kind = .symbol s := by
  obtain ⟨u, us, hts, hk⟩ := peek_symbol_iff.mp hp
  rw [tokens_of_next_some hn] at hts
  obtain ⟨rfl, -⟩ := List.cons.inj hts
  exact hk

end LineShell.Cursor
