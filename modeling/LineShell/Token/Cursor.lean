import LineShell.Token

/-!
# The cursor over a line

A `Cursor` stands in a line: an offset and the bytes from there on. `Cursor.next`
takes the token after the separators and moves behind the separators that follow it,
so that a cursor that has moved stands on a token or at the end. `Cursor.peek` and
`Cursor.atEnd` look without taking anything. `Cursor.tokens` takes every token.
-/

namespace LineShell

/-- A place in a line. -/
structure Cursor where
  position : Nat
  rest : Bytes
deriving DecidableEq, Repr

namespace Cursor

/-- The cursor at the start of `line`. -/
def ofLine (line : Bytes) : Cursor := ⟨0, line⟩

/-- The cursor `n` bytes further on. -/
def advance (n : Nat) (c : Cursor) : Cursor :=
  ⟨c.position + n, c.rest.drop n⟩

/-- The cursor behind the separators. -/
def skip (c : Cursor) : Cursor :=
  c.advance (c.rest.takeWhile isSeparator).length

/-- The token on which the cursor stands, none at the end of the line or on a separator. -/
def token? (c : Cursor) : Option Token :=
  match c.rest with
  | [] => none
  | b :: _ =>
    match Symbol.ofByte? b with
    | some s => some ⟨.symbol s, [b], c.position⟩
    | none =>
      if isSeparator b then none
      else some ⟨.word, c.rest.takeWhile isWordByte, c.position⟩

/-- Take the next token. At the end of the line there is none, and the cursor stays. -/
def next (c : Cursor) : Option Token × Cursor :=
  match c.skip.token? with
  | none => (none, c.skip)
  | some t => (some t, (c.skip.advance t.text.length).skip)

/-- The next token begins with a byte of `set`. -/
def peek (set : List UInt8) (c : Cursor) : Bool × Cursor :=
  (c.skip.rest.head?.any set.contains, c.skip)

/-- No token is left. -/
def atEnd (c : Cursor) : Bool × Cursor :=
  (c.skip.rest.isEmpty, c.skip)

/-! ## A token taken makes the rest shorter -/

theorem eq_skip_of_next_none {c c' : Cursor} (h : c.next = (none, c')) : c' = c.skip := by
  unfold next at h
  split at h
  · simpa using (Prod.mk.inj h).2.symm
  · simp at h

theorem length_rest_advance_le (n : Nat) (c : Cursor) :
    (c.advance n).rest.length ≤ c.rest.length := by
  simp [advance]

theorem length_rest_skip_le (c : Cursor) : c.skip.rest.length ≤ c.rest.length :=
  length_rest_advance_le _ _

theorem text_ne_nil_of_token? {c : Cursor} {t : Token} (h : c.token? = some t) :
    t.text ≠ [] ∧ c.rest ≠ [] := by
  unfold token? at h
  split at h
  · cases h
  · rename_i b r hr
    split at h
    · cases h; simp [hr]
    · rename_i hs
      split at h
      · cases h
      · rename_i hb
        cases h
        have hw : isWordByte b = true := by
          simp only [isWordByte, hs, Option.isNone_none, Bool.and_true]
          simpa using hb
        simp [hr, hw]

theorem length_rest_next_lt {c c' : Cursor} {t : Token} (h : c.next = (some t, c')) :
    c'.rest.length < c.rest.length := by
  unfold next at h
  split at h
  · simp at h
  · rename_i u hu
    simp only [Prod.mk.injEq, Option.some.injEq] at h
    obtain ⟨rfl, rfl⟩ := h
    have ⟨ht, hr⟩ := text_ne_nil_of_token? hu
    have h1 := length_rest_skip_le (c.skip.advance u.text.length)
    have h2 : (c.skip.advance u.text.length).rest.length < c.skip.rest.length := by
      simp only [advance, List.length_drop]
      have := List.length_pos_iff.mpr ht
      have := List.length_pos_iff.mpr hr
      omega
    have h3 := length_rest_skip_le c
    omega

/-- Every token from the cursor on, in order. -/
def tokens (c : Cursor) : List Token :=
  match _h : c.next with
  | (none, _) => []
  | (some t, c') => t :: tokens c'
termination_by c.rest.length
decreasing_by exact length_rest_next_lt (by assumption)

end Cursor

/-- The tokens of a line, in order. -/
def tokenize (line : Bytes) : List Token :=
  (Cursor.ofLine line).tokens

end LineShell
