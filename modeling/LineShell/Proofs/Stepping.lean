import LineShell.Proofs.Locating

/-!
# Steps of a cursor

A cursor can be asked for its next token, in two ways, and can be asked to look ahead, in two ways.
Each of these is a `Cursor.Step` with its `Cursor.Answer`, and a `Cursor.dialogue` is the answers to
steps in any order.

Looking ahead moves a cursor behind separators only, and there every step is answered as in front of
them (`step_skip`). What has been returned, together with the tokens that are left, is always the
tokens of the line (`returned_append_tokens`).

`dialogue_ofLine` says what every step of any dialogue with a line is answered, and where the cursor
stands behind it.
-/

namespace LineShell

namespace Cursor

/-- What a cursor can be asked. -/
inductive Step where
  /-- The next token, or the end. -/
  | next
  /-- The next token, if there is one. -/
  | item
  /-- Whether no token is left. -/
  | atEnd
  /-- Whether the next token begins with a byte of a set. -/
  | peek (set : List UInt8)
deriving DecidableEq, Repr

/-- A step takes a token, if there is one. -/
def Step.takes : Step → Bool
  | .next | .item => true
  | .atEnd | .peek _ => false

/-- What a cursor answers. -/
inductive Answer where
  | token (t : Token)
  /-- The end, as a token with this text between these offsets. -/
  | ended (text : Bytes) (start stop : Nat)
  | nothing
  | truth (b : Bool)
deriving DecidableEq, Repr

/-- The token that is returned. -/
def Answer.token? : Answer → Option Token
  | .token t => some t
  | _ => none

/-- The answer to a step, and the cursor behind it. -/
def step (c : Cursor) : Step → Answer × Cursor
  | .next =>
    match c.next with
    | (some t, d) => (.token t, d)
    | (none, d) => (.ended [] d.position d.position, d)
  | .item =>
    match c.next with
    | (some t, d) => (.token t, d)
    | (none, d) => (.nothing, d)
  | .atEnd => (.truth c.atEnd.1, c.atEnd.2)
  | .peek set => (.truth (c.peek set).1, (c.peek set).2)

/-- The cursor behind some steps. -/
def after (c : Cursor) (steps : List Step) : Cursor :=
  steps.foldl (fun c s => (c.step s).2) c

/-- Steps with the answers to them, in order. -/
def dialogue (c : Cursor) : List Step → List (Step × Answer)
  | [] => []
  | s :: steps => (s, (c.step s).1) :: (c.step s).2.dialogue steps

/-- The tokens that some steps return. -/
def returned (c : Cursor) (steps : List Step) : List Token :=
  (c.dialogue steps).filterMap fun p => p.2.token?

/-- The answer to a step that takes the token `t?` of a line with its end at `stop`. -/
def Step.giving (stop : Nat) : Step → Option Token → Answer
  | _, some t => .token t
  | .next, none => .ended [] stop stop
  | _, none => .nothing

variable {c c' : Cursor} {s : Step} {t : Token} {line : Bytes}

/-! ## One step -/

/-- Looking ahead only passes over separators. -/
theorem snd_step_of_takes_eq_false (h : s.takes = false) : (c.step s).2 = c.skip := by
  cases s with
  | next => cases h
  | item => cases h
  | atEnd => rfl
  | peek set => rfl

/-- A step that takes goes where `next` goes. -/
theorem snd_step_of_takes (h : s.takes = true) : (c.step s).2 = c.next.2 := by
  rcases hn : c.next with ⟨_ | t, d⟩ <;> cases s with
  | next => simp only [step, hn]
  | item => simp only [step, hn]
  | atEnd => cases h
  | peek set => cases h

/-- Every step begins with passing over separators. -/
theorem step_skip (c : Cursor) (s : Step) : c.skip.step s = c.step s := by
  cases s with
  | next => simp only [step, next_skip]
  | item => simp only [step, next_skip]
  | atEnd => simp only [step, atEnd, skip_skip]
  | peek set => simp only [step, peek, skip_skip]

theorem skip_snd_next (c : Cursor) : c.next.2.skip = c.next.2 := by
  rcases h : c.next with ⟨_ | t, d⟩
  · rw [eq_skip_of_next_none h]
    exact skip_skip c
  · exact Grammar.skip_of_next h

theorem skip_snd_step (c : Cursor) (s : Step) : (c.step s).2.skip = (c.step s).2 := by
  cases h : s.takes with
  | false => rw [snd_step_of_takes_eq_false h, skip_skip]
  | true => rw [snd_step_of_takes h, skip_snd_next]

theorem reaches_step (c : Cursor) (s : Step) : c.Reaches (c.step s).2 := by
  cases h : s.takes with
  | false => rw [snd_step_of_takes_eq_false h]; exact reaches_skip c
  | true => rw [snd_step_of_takes h]; exact reaches_of_next rfl

/-- A step that takes is answered with the first token that is left, or with the end. -/
theorem fst_step_of_takes (h : s.takes = true) :
    (c.step s).1 = s.giving c.stop c.tokens.head? := by
  rcases hn : c.next with ⟨_ | t, d⟩
  · have hd : d.position = c.stop := by
      rw [eq_skip_of_next_none hn, position_skip_eq, tokens_of_next_none hn, placeOf_nil]
    rw [tokens_of_next_none hn]
    cases s with
    | next => simp only [step, hn, hd, Step.giving, List.head?_nil]
    | item => simp only [step, hn, Step.giving, List.head?_nil]
    | atEnd => cases h
    | peek set => cases h
  · rw [tokens_of_next_some hn]
    cases s with
    | next => simp only [step, hn, Step.giving, List.head?_cons]
    | item => simp only [step, hn, Step.giving, List.head?_cons]
    | atEnd => cases h
    | peek set => cases h

/-- It leaves the other tokens. -/
theorem tokens_step_of_takes (h : s.takes = true) : (c.step s).2.tokens = c.tokens.tail := by
  rw [snd_step_of_takes h]
  rcases hn : c.next with ⟨_ | t, d⟩
  · rw [eq_skip_of_next_none hn, tokens_skip, tokens_of_next_none hn, List.tail_nil]
  · rw [tokens_of_next_some hn, List.tail_cons]

theorem tokens_step_of_takes_eq_false (h : s.takes = false) : (c.step s).2.tokens = c.tokens := by
  rw [snd_step_of_takes_eq_false h, tokens_skip]

theorem token?_giving (stop : Nat) (s : Step) (t? : Option Token) :
    (s.giving stop t?).token? = t? := by
  cases t? with
  | some t => cases s <;> rfl
  | none => cases s <;> rfl

theorem token?_step_of_takes_eq_false (h : s.takes = false) : (c.step s).1.token? = none := by
  cases s with
  | next => cases h
  | item => cases h
  | atEnd => rfl
  | peek set => rfl

/-- The token that a step returns is taken from those that are left. -/
theorem token?_append_tokens_step (c : Cursor) (s : Step) :
    (c.step s).1.token?.toList ++ (c.step s).2.tokens = c.tokens := by
  cases h : s.takes with
  | false => simp [token?_step_of_takes_eq_false h, tokens_step_of_takes_eq_false h]
  | true =>
    rw [fst_step_of_takes h, token?_giving, tokens_step_of_takes h]
    cases c.tokens <;> rfl

/-! ## Any number of steps -/

theorem after_append (c : Cursor) (steps more : List Step) :
    c.after (steps ++ more) = (c.after steps).after more := by
  simp [after]

theorem reaches_after (c : Cursor) (steps : List Step) : c.Reaches (c.after steps) := by
  induction steps generalizing c with
  | nil => exact reaches_refl c
  | cons s steps ih => exact (reaches_step c s).trans (ih _)

/-- What has been returned and what is left are the tokens from the beginning on. -/
theorem returned_append_tokens (c : Cursor) (steps : List Step) :
    c.returned steps ++ (c.after steps).tokens = c.tokens := by
  induction steps generalizing c with
  | nil => rfl
  | cons s steps ih =>
    have hcons : c.returned (s :: steps) =
        (c.step s).1.token?.toList ++ (c.step s).2.returned steps := by
      rw [returned, dialogue, List.filterMap_cons]
      cases (c.step s).1.token? <;> rfl
    rw [hcons, List.append_assoc]
    exact (congrArg _ (ih (c.step s).2)).trans (token?_append_tokens_step c s)

/-- The steps that take get the tokens in order, and the end when these are used up. -/
theorem answers_dialogue (c : Cursor) (steps : List Step) :
    ((c.dialogue steps).filter fun p => p.1.takes).map Prod.snd =
      (steps.filter Step.takes).mapIdx fun k s => s.giving c.stop c.tokens[k]? := by
  induction steps generalizing c with
  | nil => rfl
  | cons s steps ih =>
    have hstop : (c.step s).2.stop = c.stop := (reaches_step c s).stop_eq
    cases h : s.takes with
    | false =>
      simp only [dialogue, List.filter_cons, h, Bool.false_eq_true, if_false]
      rw [ih, hstop, tokens_step_of_takes_eq_false h]
    | true =>
      simp only [dialogue, List.filter_cons, h, if_true, List.map_cons, List.mapIdx_cons]
      rw [ih, hstop, tokens_step_of_takes h, fst_step_of_takes h, List.head?_eq_getElem?]
      simp only [List.getElem?_tail]

/-- Where a step was taken, the next token begins, or the line ends. -/
theorem position_step (c : Cursor) (s : Step) :
    (c.step s).2.position = placeOf c.stop (c.step s).2.tokens := by
  rw [← skip_snd_step, position_skip_eq, (reaches_step c s).stop_eq, skip_snd_step]

/-- Behind a look ahead everything is answered as without it. -/
theorem dialogue_step_of_takes_eq_false (h : s.takes = false) (more : List Step) :
    (c.step s).2.dialogue more = c.dialogue more := by
  rw [snd_step_of_takes_eq_false h]
  cases more with
  | nil => rfl
  | cons m more => rw [dialogue, dialogue, step_skip]

end Cursor

open Cursor

/-- In any dialogue with a line, the steps that take a token are answered with the tokens of the
line in order, and then with the end of the line for ever. At any time `atEnd` tells whether all of
them have been returned, and `peek` whether there is a next one that begins with a byte of the set.
Neither changes what is answered later. No step moves the cursor back, and each leaves it in the
line, where the next token begins, or at the end of the line if there is none. -/
theorem dialogue_ofLine (line : Bytes) (steps : List Step) :
    let ts := tokenize line
    let c := ofLine line
    let d := c.after steps
    ((c.dialogue steps).filter fun p => p.1.takes).map Prod.snd =
        (steps.filter Step.takes).mapIdx (fun k s => s.giving line.length ts[k]?) ∧
      (∃ b, (d.step .atEnd).1 = .truth b ∧ (b = true ↔ c.returned steps = ts)) ∧
      (∀ set, ∃ b, (d.step (.peek set)).1 = .truth b ∧
        (b = true ↔ ∃ t rest, ts = c.returned steps ++ t :: rest ∧ ∃ x ∈ set, t.text.head? = some x)) ∧
      (∀ look, look.takes = false →
        ∀ later, (c.after (steps ++ [look])).dialogue later = d.dialogue later) ∧
      ∀ s, let e := c.after (steps ++ [s])
        d.position ≤ e.position ∧ e.position ≤ line.length ∧ e.rest = line.drop e.position ∧
        ((∃ t rest, ts = c.returned (steps ++ [s]) ++ t :: rest ∧ e.position = t.start) ∨
          c.returned (steps ++ [s]) = ts ∧ e.position = line.length) := by
  intro ts c d
  have hstop : c.stop = line.length := Nat.zero_add _
  have hd : c.returned steps ++ d.tokens = ts := returned_append_tokens c steps
  refine ⟨?_, ⟨_, rfl, ?_⟩, fun set => ⟨_, rfl, ?_⟩, ?_, ?_⟩
  · rw [answers_dialogue, hstop]
    rfl
  · rw [atEnd_iff, ← hd]
    exact ⟨fun h => by rw [h, List.append_nil], fun h => List.append_right_eq_self.mp h.symm⟩
  · rw [peek_iff, ← hd]
    constructor
    · rintro ⟨t, x, ht, hx, hset⟩
      obtain ⟨rest, hrest⟩ := List.head?_eq_some_iff.mp ht
      exact ⟨t, rest, by rw [hrest], x, hset, hx⟩
    · rintro ⟨t, rest, heq, x, hset, hx⟩
      exact ⟨t, x, by rw [List.append_cancel_left heq, List.head?_cons], hx, hset⟩
  · intro look hlook later
    rw [after_append]
    exact dialogue_step_of_takes_eq_false hlook later
  · intro s e
    have he : e = (d.step s).2 := after_append c steps [s]
    have hreach := reaches_ofLine_iff.mp (reaches_after c (steps ++ [s]))
    have hleft : c.returned (steps ++ [s]) ++ e.tokens = ts := returned_append_tokens c _
    have hplace : e.position = placeOf line.length e.tokens := by
      rw [he, position_step, (reaches_after c steps).stop_eq, hstop]
    refine ⟨?_, hreach.1, hreach.2, ?_⟩
    · rw [he]
      exact (reaches_step d s).position_le
    · rw [← hleft]
      cases htokens : e.tokens with
      | nil => exact .inr ⟨(List.append_nil _).symm, by rw [hplace, htokens, placeOf_nil]⟩
      | cons t rest => exact .inl ⟨t, rest, rfl, by rw [hplace, htokens, placeOf_cons]⟩

end LineShell
