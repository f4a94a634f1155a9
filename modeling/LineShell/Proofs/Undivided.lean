import LineShell.Proofs.Boundary
import LineShell.Proofs.Segmentation
import LineShell.Proofs.Stepping

/-!
# No character is divided

A line is read byte by byte, and may be text with longer characters. A cursor `Stands` in it between
two characters : what stops a cursor is a byte below 128, and there text is cut into text
(`Stands.skip`, `Stands.next`).

A command is read by steps of a cursor, and its words and paths are texts of tokens that these steps
take (`takes_line`). So however a line of text is read, every offset is a boundary of it, and every
slice is text (`undivided_behind`).
-/

namespace LineShell

/-- The words of a command : its arguments, and the paths of its redirections. -/
def Command.texts : Command → List Bytes
  | .exec argv => argv
  | .redirect target r => target.texts ++ [r.path]
  | .pipe left right => left.texts ++ right.texts

/-- The words of a segment. -/
def Segment.texts (s : Segment) : List Bytes := s.words ++ s.redirections.map Redirection.path

theorem Segment.mem_texts_command {s : Segment} {w : Bytes} :
    w ∈ s.command.texts ↔ w ∈ s.texts := by
  have hwrap : ∀ (rs : List Redirection) (c : Command),
      (c.wrap rs).texts = c.texts ++ rs.map Redirection.path := by
    intro rs
    induction rs using List.reverseRecOn with
    | nil => simp
    | append_singleton rs r ih => simp [Command.wrap_concat, Command.texts, ih]
  rw [Segment.command, hwrap, Command.texts, Segment.texts]

namespace Cursor

variable {line w x r : Bytes} {c d e : Cursor} {t : Token} {steps : List Step} {v : List Bytes}

/-! ## Standing between characters -/

/-- The cursor stands in `line`, and what is in front of it and behind it are text. -/
structure Stands (line : Bytes) (c : Cursor) : Prop where
  position_le : c.position ≤ line.length
  rest_eq : c.rest = line.drop c.position
  front : Utf8.Valid (line.take c.position)
  rest : Utf8.Valid c.rest

theorem stands_ofLine (h : Utf8.Valid line) : Stands line (ofLine line) :=
  ⟨Nat.zero_le _, rfl, Utf8.valid_nil, h⟩

namespace Stands

theorem line_eq (h : Stands line c) : line = line.take c.position ++ c.rest := by
  rw [h.rest_eq, List.take_append_drop]

theorem valid (h : Stands line c) : Utf8.Valid line := by
  rw [h.line_eq]
  exact h.front.append h.rest

theorem isBoundary (h : Stands line c) : Utf8.isBoundary line c.position = true :=
  (Utf8.isBoundary_iff h.valid).mpr ⟨h.position_le, h.front, h.rest_eq ▸ h.rest⟩

/-- Text in front of text can be passed over. -/
theorem advance (h : Stands line c) (hc : c.rest = x ++ r) (hx : Utf8.Valid x)
    (hr : Utf8.Valid r) : Stands line (c.advance x.length) where
  position_le := by
    have hlen := congrArg List.length (h.rest_eq.symm.trans hc)
    rw [List.length_drop, List.length_append] at hlen
    have := h.position_le
    simp only [Cursor.advance]
    omega
  rest_eq := by
    simp only [Cursor.advance, h.rest_eq, List.drop_drop]
  front := by
    simp only [Cursor.advance, List.take_add, ← h.rest_eq, hc, List.take_left]
    exact h.front.append hx
  rest := by
    simp only [Cursor.advance, hc, List.drop_left]
    exact hr

/-- Text in front of text can be cut out of the line. -/
theorem slice? (h : Stands line c) (hc : c.rest = x ++ r) (hx : Utf8.Valid x)
    (hr : Utf8.Valid r) : Utf8.slice? line c.position (c.position + x.length) = some x := by
  have hcut := Utf8.slice?_append h.front hx hr
  rw [List.append_assoc, ← hc, ← h.line_eq, List.length_take] at hcut
  rwa [Nat.min_eq_left h.position_le] at hcut

/-- What is left can be cut out of the line. -/
theorem slice?_rest (h : Stands line c) :
    Utf8.slice? line c.position line.length = some c.rest := by
  have hcut := h.slice? (List.append_nil c.rest).symm h.rest Utf8.valid_nil
  have hlen : c.position + c.rest.length = line.length := by
    have := h.position_le
    rw [h.rest_eq, List.length_drop]
    omega
  rwa [hlen] at hcut

end Stands

/-! ## Separators and tokens -/

theorem lt_of_isSeparator {b : UInt8} (h : isSeparator b = true) : b.toNat < 128 := by
  rw [isSeparator_iff] at h
  simp only [separators, List.mem_cons, List.not_mem_nil, or_false] at h
  rcases h with rfl | rfl | rfl | rfl | rfl <;> decide

/-- What ends a word is a byte below 128. -/
theorem lt_of_not_isWordByte {b : UInt8} (h : isWordByte b = false) : b.toNat < 128 := by
  rw [← Bool.not_eq_true, isWordByte_iff, not_not] at h
  simp only [reserved, List.mem_cons, List.not_mem_nil, or_false] at h
  rcases h with rfl | rfl | rfl | rfl | rfl | rfl | rfl | rfl <;> decide

theorem Stands.skip (h : Stands line c) : Stands line c.skip := by
  have hsplit : c.rest = c.rest.takeWhile isSeparator ++ c.rest.dropWhile isSeparator :=
    List.takeWhile_append_dropWhile.symm
  have hlow : ∀ b ∈ c.rest.takeWhile isSeparator, b.toNat < 128 := fun b hb =>
    lt_of_isSeparator (List.mem_takeWhile_imp hb)
  have hr := h.rest
  rw [hsplit, (Utf8.valid_of_ascii hlow).append_iff] at hr
  exact h.advance hsplit (Utf8.valid_of_ascii hlow) hr

/-- A word ends in front of a byte below 128, if not with the line. -/
theorem valid_of_words (h : Utf8.Valid r) :
    Utf8.Valid (r.takeWhile isWordByte) ∧ Utf8.Valid (r.dropWhile isWordByte) := by
  have hsplit : r.takeWhile isWordByte ++ r.dropWhile isWordByte = r :=
    List.takeWhile_append_dropWhile
  rcases hd : r.dropWhile isWordByte with _ | ⟨a, s⟩
  · rw [hd, List.append_nil] at hsplit
    rw [hsplit]
    exact ⟨h, Utf8.valid_nil⟩
  · have ha : a.toNat < 128 := by
      have hno := List.head?_dropWhile_not isWordByte r
      rw [hd] at hno
      exact lt_of_not_isWordByte hno
    rw [hd] at hsplit
    rw [← hsplit, Utf8.valid_append_ascii_iff ha] at h
    exact ⟨h.1, (Utf8.valid_singleton ha).append h.2⟩

/-- A token that stands in text is text, and so is what is behind it. -/
theorem valid_of_token? (h : Utf8.Valid c.rest) (ht : c.token? = some t) :
    ∃ r, c.rest = t.text ++ r ∧ Utf8.Valid t.text ∧ Utf8.Valid r := by
  unfold token? at ht
  split at ht
  · cases ht
  · rename_i b r hr
    split at ht
    · rename_i s hs
      cases ht
      have hb : b.toNat < 128 := by
        rw [← Symbol.byte_of_ofByte? hs]
        cases s <;> decide
      have hbehind : Utf8.Valid r := by
        rw [hr, ← List.nil_append (b :: r), Utf8.valid_append_ascii_iff hb] at h
        exact h.2
      exact ⟨r, hr, Utf8.valid_singleton hb, hbehind⟩
    · split at ht
      · cases ht
      · cases ht
        obtain ⟨hword, hbehind⟩ := valid_of_words h
        exact ⟨_, List.takeWhile_append_dropWhile.symm, hword, hbehind⟩

/-- The end of a token is a boundary too, and between both ends stands its text. -/
theorem Stands.token? (h : Stands line c) (ht : c.token? = some t) :
    Stands line (c.advance t.text.length) ∧ Utf8.slice? line t.start t.stop = some t.text := by
  obtain ⟨r, hr, htext, hbehind⟩ := valid_of_token? h.rest ht
  refine ⟨h.advance hr htext hbehind, ?_⟩
  rw [Token.stop, start_of_token? ht]
  exact h.slice? hr htext hbehind

theorem Stands.next (h : Stands line c) : Stands line c.next.2 := by
  unfold Cursor.next
  split
  · exact h.skip
  · rename_i t ht
    exact (h.skip.token? ht).1.skip

theorem Stands.step (h : Stands line c) (s : Step) : Stands line (c.step s).2 := by
  cases hs : s.takes with
  | false => rw [snd_step_of_takes_eq_false hs]; exact h.skip
  | true => rw [snd_step_of_takes hs]; exact h.next

theorem Stands.after (h : Stands line c) (steps : List Step) : Stands line (c.after steps) := by
  induction steps generalizing c with
  | nil => exact h
  | cons s steps ih => exact ih (h.step s)

/-- The text of an answer, and the offsets at which it begins and ends. -/
def Answer.span? : Answer → Option (Bytes × Nat × Nat)
  | .token t => some (t.text, t.start, t.stop)
  | .ended text start stop => some (text, start, stop)
  | _ => none

/-- What a step answers stands in the line between two boundaries. -/
theorem Stands.span (h : Stands line c) (s : Step) {start stop : Nat}
    (hs : (c.step s).1.span? = some (w, start, stop)) :
    Utf8.slice? line start stop = some w := by
  have hnext : ∀ {u : Token}, c.next.1 = some u →
      Utf8.slice? line u.start u.stop = some u.text := by
    intro u hu
    unfold Cursor.next at hu
    split at hu
    · cases hu
    · rename_i u' hu'
      cases hu
      exact (h.skip.token? hu').2
  cases s with
  | next =>
    rcases hn : c.next with ⟨_ | u, d⟩ <;> simp only [Cursor.step, hn] at hs <;> cases hs
    · have hd : d = c.next.2 := by rw [hn]
      rw [hd]
      exact h.next.slice? (List.nil_append _).symm Utf8.valid_nil h.next.rest
    · exact hnext (by rw [hn])
  | item =>
    rcases hn : c.next with ⟨_ | u, d⟩ <;> simp only [Cursor.step, hn] at hs <;> cases hs
    exact hnext (by rw [hn])
  | atEnd => cases hs
  | peek set => cases hs

/-! ## A command is read by steps -/

/-- Steps lead from `c` to `d`, and take tokens whose texts include `v`. -/
def Takes (c d : Cursor) (v : List Bytes) : Prop :=
  ∃ steps, d = c.after steps ∧ ∀ w ∈ v, ∃ t ∈ c.returned steps, t.text = w

theorem takes_refl (c : Cursor) : Takes c c [] := ⟨[], rfl, by simp⟩

theorem returned_append (c : Cursor) (steps more : List Step) :
    c.returned (steps ++ more) = c.returned steps ++ (c.after steps).returned more := by
  have hall := returned_append_tokens c (steps ++ more)
  rw [after_append] at hall
  have hfront := returned_append_tokens c steps
  rw [← returned_append_tokens (c.after steps) more, ← List.append_assoc] at hfront
  exact List.append_cancel_right (hall.trans hfront.symm)

theorem Takes.trans {u : List Bytes} (h : Takes c d u) (h' : Takes d e v) : Takes c e (u ++ v) := by
  obtain ⟨steps, rfl, hu⟩ := h
  obtain ⟨more, rfl, hv⟩ := h'
  refine ⟨steps ++ more, (after_append c steps more).symm, fun w hw => ?_⟩
  rw [returned_append]
  rcases List.mem_append.mp hw with hw | hw
  · obtain ⟨t, ht, rfl⟩ := hu w hw
    exact ⟨t, List.mem_append_left _ ht, rfl⟩
  · obtain ⟨t, ht, rfl⟩ := hv w hw
    exact ⟨t, List.mem_append_right _ ht, rfl⟩

theorem takes_skip (c : Cursor) : Takes c c.skip [] := ⟨[.atEnd], rfl, by simp⟩

theorem takes_next {t? : Option Token} (h : c.next = (t?, d)) :
    Takes c d (t?.map Token.text).toList := by
  refine ⟨[.item], ?_, fun w hw => ?_⟩
  · cases t? <;> simp [after, step, h]
  · obtain _ | t := t?
    · simp at hw
    · obtain rfl : w = t.text := by simpa using hw
      refine ⟨t, ?_, rfl⟩
      simp [returned, dialogue, step, h, Answer.token?]

end Cursor

namespace Parser

open Cursor

variable {limit : Nat} {c d : Cursor} {w : Bytes}

theorem takes_segmentFrom (limit : Nat) (s : Segment) (c : Cursor) :
    ∃ v, Takes c (segmentFrom limit s c).2 v ∧
      ∀ s', (segmentFrom limit s c).1 = .ok s' → ∀ w ∈ s'.texts, w ∈ s.texts ∨ w ∈ v := by
  fun_induction segmentFrom limit s c with
  | case1 s c c' h =>
    refine ⟨_, takes_next h, fun s' hs w hw => .inl ?_⟩
    cases hs
    exact hw
  | case2 s c t c' h hk hl ih =>
    obtain ⟨v, hv, hin⟩ := ih
    refine ⟨_, (takes_next h).trans hv, fun s' hs w hw => ?_⟩
    have hmem := hin s' hs w hw
    simp only [Segment.texts, List.mem_append, List.mem_singleton] at hmem ⊢
    simp only [Option.map_some, Option.toList_some, List.mem_singleton]
    tauto
  | case3 s c t c' h hk hl => exact ⟨_, takes_next h, by simp⟩
  | case4 s c t c' h symbol hk hd =>
    refine ⟨_, takes_skip c, fun s' hs w hw => .inl ?_⟩
    cases hs
    exact hw
  | case5 s c t c' h symbol hk d hd c'' h' =>
    exact ⟨_, (takes_next h).trans (takes_next h'), by simp⟩
  | case6 s c t c' h symbol hk d hd file c'' h' hw ih =>
    obtain ⟨v, hv, hin⟩ := ih
    refine ⟨_, ((takes_next h).trans (takes_next h')).trans hv, fun s' hs w hw => ?_⟩
    have hmem := hin s' hs w hw
    simp only [Segment.texts, List.map_append, List.map_cons, List.map_nil, List.mem_append,
      List.mem_singleton] at hmem ⊢
    simp only [Option.map_some, Option.toList_some, List.mem_singleton]
    tauto
  | case7 s c t c' h symbol hk d hd file c'' h' hw =>
    exact ⟨_, (takes_next h).trans (takes_next h'), by simp⟩

theorem takes_segment (limit : Nat) (c : Cursor) :
    ∃ v, Takes c (segment limit c).2 v ∧
      ∀ s, (segment limit c).1 = .ok s → ∀ w ∈ s.texts, w ∈ v := by
  obtain ⟨v, hv, hin⟩ := takes_segmentFrom limit { start := c.position } c
  exact ⟨v, hv, fun s hs w hw => (hin s hs w hw).resolve_left (by simp [Segment.texts])⟩

theorem takes_pipeline (limit : Nat) (left : Segment) (c : Cursor) :
    ∃ v, Takes c (pipeline limit left c).2 v ∧
      ∀ r, (pipeline limit left c).1 = .ok r → ∀ w ∈ r.texts, w ∈ left.texts ∨ w ∈ v := by
  fun_induction pipeline limit left c with
  | case1 left c hw => exact ⟨_, takes_refl c, by simp⟩
  | case2 left c hw hp c' hn => exact absurd hp (Cursor.not_peek_of_next_none hn)
  | case3 left c hw hp t c' hn e c'' hs =>
    obtain ⟨v, hv, -⟩ := takes_segment limit c'
    rw [hs] at hv
    exact ⟨_, (takes_next hn).trans hv, by simp⟩
  | case4 left c hw hp t c' hn right c'' hs e d hr ih =>
    obtain ⟨v, hv, -⟩ := takes_segment limit c'
    obtain ⟨u, hu, -⟩ := ih
    rw [hs] at hv
    rw [hr] at hu
    exact ⟨_, ((takes_next hn).trans hv).trans hu, by simp⟩
  | case5 left c hw hp t c' hn right c'' hs r d hr ih =>
    obtain ⟨v, hv, hseg⟩ := takes_segment limit c'
    obtain ⟨u, hu, hrest⟩ := ih
    rw [hs] at hv hseg
    rw [hr] at hu hrest
    refine ⟨_, ((takes_next hn).trans hv).trans hu, fun r' hr' w hw => ?_⟩
    cases hr'
    rcases List.mem_append.mp hw with hw | hw
    · exact .inl (Segment.mem_texts_command.mp hw)
    · refine .inr ?_
      rcases hrest r rfl w hw with hw | hw
      · exact List.mem_append_left _ (List.mem_append_right _ (hseg right rfl w hw))
      · exact List.mem_append_right _ hw
  | case6 left c hw hp =>
    refine ⟨_, takes_skip c, fun r hr w hw => .inl ?_⟩
    cases hr
    exact Segment.mem_texts_command.mp hw

theorem takes_command (limit : Nat) (c : Cursor) :
    ∃ v, Takes c (command limit c).2 v ∧
      ∀ r, (command limit c).1 = .ok r → ∀ w ∈ r.texts, w ∈ v := by
  obtain ⟨v, hv, hseg⟩ := takes_segment limit c
  unfold command
  rcases hs : segment limit c with ⟨e | first, c'⟩ <;> rw [hs] at hv hseg
  · exact ⟨v, hv, by simp⟩
  · simp only
    split
    · obtain ⟨u, hu, hrest⟩ := takes_pipeline limit first c'.skip
      refine ⟨_, (hv.trans (takes_skip c')).trans hu, fun r hr w hw => ?_⟩
      rcases hrest r hr w hw with hw | hw
      · exact List.mem_append_left _ (List.mem_append_left _ (hseg first rfl w hw))
      · exact List.mem_append_right _ hw
    · refine ⟨_, hv.trans (takes_skip c'), fun r hr w hw => ?_⟩
      cases hr
      exact List.mem_append_left _ (hseg first rfl w (Segment.mem_texts_command.mp hw))

/-- A line is read by steps, and its words and paths are texts of the tokens that these take. -/
theorem takes_line (limit : Nat) (c : Cursor) :
    ∃ v, Takes c (line limit c).2 v ∧
      ∀ r, (line limit c).1 = .ok r → ∀ w ∈ r.texts, w ∈ v := by
  obtain ⟨v, hv, hin⟩ := takes_command limit c
  unfold line
  rcases hs : command limit c with ⟨e | r, c'⟩ <;> rw [hs] at hv hin
  · exact ⟨v, hv, by simp⟩
  · have hskip := hv.trans (takes_skip c')
    simp only
    split
    · refine ⟨_, hskip, fun r' hr w hw => ?_⟩
      cases hr
      exact List.mem_append_left _ (hin r rfl w hw)
    · exact ⟨_, hskip, by simp⟩

end Parser

/-! ## Any reading of a line -/

/-- What can be asked of somebody who reads a line. -/
inductive Request where
  /-- A step of the cursor. -/
  | step (s : Cursor.Step)
  /-- The next command, whose segments have at most `limit` words each. -/
  | command (limit : Nat)

namespace Cursor

variable {line : Bytes} {c d : Cursor} {v : List Bytes}

/-- The cursor behind a request. -/
def serve (c : Cursor) : Request → Cursor
  | .step s => (c.step s).2
  | .command limit => (Parser.line limit c).2

/-- The cursor behind some requests. -/
def behind (c : Cursor) (requests : List Request) : Cursor := requests.foldl serve c

theorem Takes.stands (h : Takes c d v) (hc : Stands line c) : Stands line d := by
  obtain ⟨steps, rfl, -⟩ := h
  exact hc.after steps

theorem Stands.serve (h : Stands line c) (q : Request) : Stands line (c.serve q) := by
  cases q with
  | step s => exact h.step s
  | command limit =>
    obtain ⟨v, hv, -⟩ := Parser.takes_line limit c
    exact hv.stands h

theorem Stands.behind (h : Stands line c) (requests : List Request) :
    Stands line (c.behind requests) := by
  induction requests generalizing c with
  | nil => exact h
  | cons q requests ih => exact ih (h.serve q)

/-- The tokens that steps return stand in the line between boundaries. -/
theorem Stands.returned (h : Stands line c) (steps : List Step) :
    ∀ t ∈ c.returned steps, Utf8.slice? line t.start t.stop = some t.text := by
  induction steps generalizing c with
  | nil => simp [Cursor.returned, dialogue]
  | cons s steps ih =>
    intro t ht
    obtain ⟨⟨s', a⟩, hmem, ha⟩ := List.mem_filterMap.mp ht
    rcases List.mem_cons.mp hmem with heq | hmem
    · cases heq
      refine h.span s ?_
      cases hstep : (c.step s).1 <;> rw [hstep] at ha <;> cases ha
      rfl
    · exact ih (h.step s) t (List.mem_filterMap.mpr ⟨(s', a), hmem, ha⟩)

end Cursor

open Cursor

/-- However a line of text is read, by steps and by requests for commands in any order, also after
errors : the cursor stands at a boundary of the line, and the unread rest can be cut out. The text
of the next token, or of the end, can be cut out between its two offsets, and is text. A request for
a command is answered by steps, all of whose tokens can be cut out and are text, and the words and
paths of the command are texts of such tokens. Where a rest would be left over, it can be cut out,
and is text. -/
theorem undivided_behind (t : Text) (requests : List Request) :
    let line := Utf8.encode t
    let c := (ofLine line).behind requests
    (c.position ≤ line.length ∧ Utf8.isBoundary line c.position = true ∧
      Utf8.slice? line c.position line.length = some c.rest) ∧
    (∀ s w start stop, (c.step s).1.span? = some (w, start, stop) →
      (start ≤ stop ∧ stop ≤ line.length) ∧
      (Utf8.isBoundary line start = true ∧ Utf8.isBoundary line stop = true) ∧
      Utf8.slice? line start stop = some w ∧ Utf8.Valid w) ∧
    ∀ limit, let rest := (Parser.command limit c).2.skip
      (∃ steps, (Parser.line limit c).2 = c.after steps ∧
        (∀ u ∈ c.returned steps,
          Utf8.slice? line u.start u.stop = some u.text ∧ Utf8.Valid u.text) ∧
        ∀ r, (Parser.line limit c).1 = .ok r →
          ∀ w ∈ r.texts, Utf8.Valid w ∧ ∃ u ∈ c.returned steps, u.text = w) ∧
      Utf8.slice? line rest.position line.length = some rest.rest ∧ Utf8.Valid rest.rest := by
  intro line c
  have hline : Utf8.Valid line := Utf8.valid_encode t
  have hc : Stands line c := (stands_ofLine hline).behind requests
  refine ⟨⟨hc.position_le, hc.isBoundary, hc.slice?_rest⟩, fun s w start stop hs => ?_,
    fun limit => ?_⟩
  · have hslice := hc.span s hs
    obtain ⟨hle, hstart, hstop, -⟩ := Utf8.slice?_eq_some_iff.mp hslice
    exact ⟨⟨hle, ((Utf8.isBoundary_iff hline).mp hstop).1⟩, ⟨hstart, hstop⟩, hslice,
      Utf8.valid_of_slice? hline hslice⟩
  · intro rest
    obtain ⟨v, ⟨steps, hafter, hv⟩, hin⟩ := Parser.takes_line limit c
    obtain ⟨u, hu, -⟩ := Parser.takes_command limit c
    have hrest : Stands line rest := (hu.stands hc).skip
    have hreturned : ∀ u ∈ c.returned steps,
        Utf8.slice? line u.start u.stop = some u.text ∧ Utf8.Valid u.text := fun u hu =>
      ⟨hc.returned steps u hu, Utf8.valid_of_slice? hline (hc.returned steps u hu)⟩
    refine ⟨⟨steps, hafter, hreturned, fun r hr w hw => ?_⟩, hrest.slice?_rest, hrest.rest⟩
    obtain ⟨u, hmem, rfl⟩ := hv w (hin r hr w hw)
    exact ⟨(hreturned u hmem).2, u, hmem, rfl⟩

end LineShell
