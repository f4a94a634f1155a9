import LineShell.Proofs.Replacing

/-!
# Where text can be cut

Bytes of text can be cut in front of a character and at both ends. `Utf8.isBoundary` finds these
places by the one byte behind them, and `Utf8.slice?` cuts nowhere else.

In the bytes of a text the boundaries are the ends of its starts (`isBoundary_encode_iff`), so what
is cut there is text again (`valid_of_slice?`). A byte below 128 has a boundary on both sides
(`valid_append_ascii_iff`).
-/

namespace LineShell.Utf8

/-- The offset `n` is at an end of `bytes`, or in front of a byte that goes on with no character. -/
def isBoundary (bytes : Bytes) (n : Nat) : Bool :=
  n = 0 || match bytes[n]? with
    | some b => !isContinuation b
    | none => n = bytes.length

/-- The bytes from the offset `i` to the offset `j`. There are none if the offsets are not in order,
or one of them is no boundary. -/
def slice? (bytes : Bytes) (i j : Nat) : Option Bytes :=
  if i ≤ j && isBoundary bytes i && isBoundary bytes j then some ((bytes.take j).drop i) else none

variable {bytes x y z : Bytes} {t : Text} {c : Char} {a b : UInt8} {i j n : Nat}

/-! ## Text -/

theorem valid_encode (t : Text) : Valid (encode t) := ⟨t, rfl⟩

theorem valid_nil : Valid [] := valid_encode []

theorem Valid.append (hx : Valid x) (hy : Valid y) : Valid (x ++ y) := by
  obtain ⟨s, rfl⟩ := hx
  obtain ⟨t, rfl⟩ := hy
  exact ⟨s ++ t, (encode_append s t).symm⟩

/-- A text that begins with the bytes of a character begins with it. -/
theorem eq_cons_of_encode_eq_append (h : encode t = String.utf8EncodeChar c ++ y) :
    ∃ s, t = c :: s ∧ y = encode s := by
  have hdecode := congrArg decodeLossy h
  rw [decodeLossy_encode, decodeLossy_encodeChar_append] at hdecode
  rw [hdecode, encode_cons, List.append_cancel_left_eq] at h
  exact ⟨_, hdecode, h.symm⟩

/-- What stands behind text is text if the whole is. -/
theorem Valid.append_iff (hx : Valid x) : Valid (x ++ y) ↔ Valid y := by
  constructor
  · obtain ⟨s, rfl⟩ := hx
    induction s with
    | nil => exact id
    | cons c s ih =>
      rintro ⟨t, ht⟩
      rw [encode_cons, List.append_assoc] at ht
      obtain ⟨t, -, hrest⟩ := eq_cons_of_encode_eq_append ht.symm
      exact ih ⟨t, hrest⟩
  · exact hx.append

/-- Bytes are decoded only as the text that they encode. -/
theorem decode?_eq_some_iff : decode? bytes = some t ↔ bytes = encode t := by
  constructor
  · intro h
    fun_induction decode? bytes generalizing t with
    | case1 =>
      cases h
      rfl
    | case2 b rest ih =>
      obtain ⟨c, hc, h⟩ := Option.bind_eq_some_iff.mp h
      obtain ⟨s, hs, h⟩ := Option.bind_eq_some_iff.mp h
      cases h
      rw [encode_cons, ← ih hs, ← readChar_eq_some_iff, ← hc]
  · rintro rfl
    exact decode?_encode t

theorem isSome_decode?_iff : (decode? bytes).isSome = true ↔ Valid bytes := by
  rw [Option.isSome_iff_exists]
  exact exists_congr fun t => decode?_eq_some_iff

instance (bytes : Bytes) : Decidable (Valid bytes) :=
  decidable_of_iff ((decode? bytes).isSome = true) isSome_decode?_iff

/-- The first byte of a character goes on with no other, and the rest of them do. -/
theorem isContinuation_getElem (c : Char) (h : n < (String.utf8EncodeChar c).length) :
    isContinuation (String.utf8EncodeChar c)[n] = decide (0 < n) := by
  have hs := spells_encodeChar c
  generalize String.utf8EncodeChar c = x at h hs
  generalize c.toNat = v at hs
  have hfirst : ∀ b : UInt8, b.toNat < 128 ∨ 192 ≤ b.toNat → isContinuation b = false := by
    intro b hb
    rw [← Bool.not_eq_true, isContinuation_iff]
    omega
  cases hs with
  | one hb =>
    obtain rfl : n = 0 := by simpa using h
    exact hfirst _ (.inl hb)
  | @two b d hb hd =>
    match n, h with
    | 0, _ => exact hfirst b (.inr (by omega))
    | 1, _ => exact hd
  | @three b d e hb hd hlow hhigh he =>
    match n, h with
    | 0, _ => exact hfirst b (.inr (by omega))
    | 1, _ => exact hd
    | 2, _ => exact he
  | @four b d e f hb hd hlow hhigh he hf =>
    match n, h with
    | 0, _ => exact hfirst b (.inr (by omega))
    | 1, _ => exact hd
    | 2, _ => exact he
    | 3, _ => exact hf

theorem length_encodeChar_pos (c : Char) : 0 < (String.utf8EncodeChar c).length := by
  rw [String.length_utf8EncodeChar]
  exact c.utf8Size_pos

theorem isContinuation_head_encode (t : Text) :
    ∀ b ∈ (encode t).head?, isContinuation b = false := by
  cases t with
  | nil => simp
  | cons c t =>
    have hfirst := isContinuation_getElem c (length_encodeChar_pos c)
    rw [encode_cons, List.head?_append, List.head?_eq_getElem?,
      List.getElem?_eq_getElem (length_encodeChar_pos c)]
    simpa using hfirst

/-! ## Boundaries -/

/-- Behind a character, the boundaries are those of what follows it. -/
theorem isBoundary_encodeChar_append (c : Char) (t : Text) (m : Nat) :
    isBoundary (String.utf8EncodeChar c ++ encode t) ((String.utf8EncodeChar c).length + m) =
      isBoundary (encode t) m := by
  have hpos := length_encodeChar_pos c
  have hne : (String.utf8EncodeChar c).length + m ≠ 0 := by omega
  have hget : (String.utf8EncodeChar c ++ encode t)[(String.utf8EncodeChar c).length + m]? =
      (encode t)[m]? := by
    rw [List.getElem?_append_right (Nat.le_add_right _ _), Nat.add_sub_cancel_left]
  unfold isBoundary
  rw [hget, List.length_append]
  simp only [hne, decide_false, Bool.false_or, Nat.add_left_cancel_iff]
  rcases Nat.eq_zero_or_pos m with rfl | hm
  · have hhead := isContinuation_head_encode t
    rw [List.head?_eq_getElem?] at hhead
    cases h : (encode t)[0]? with
    | none =>
      have hnil : (encode t).length = 0 := Nat.le_zero.mp (List.getElem?_eq_none_iff.mp h)
      simp [hnil]
    | some b => simp [hhead b h]
  · simp [Nat.ne_of_gt hm]

/-- Inside a character is no boundary. -/
theorem not_isBoundary_of_lt (t : Text) (hpos : 0 < n)
    (hlt : n < (String.utf8EncodeChar c).length) :
    isBoundary (String.utf8EncodeChar c ++ encode t) n = false := by
  have hget : (String.utf8EncodeChar c ++ encode t)[n]? = some (String.utf8EncodeChar c)[n] := by
    rw [List.getElem?_append_left hlt, List.getElem?_eq_getElem hlt]
  unfold isBoundary
  rw [hget]
  simp [isContinuation_getElem c hlt, hpos, Nat.ne_of_gt hpos]

/-- The boundaries of a text are where a start of it ends. -/
theorem isBoundary_encode_iff : isBoundary (encode t) n = true ↔
    ∃ front back, t = front ++ back ∧ (encode front).length = n := by
  induction t generalizing n with
  | nil =>
    constructor
    · intro h
      cases n with
      | zero => exact ⟨[], [], rfl, rfl⟩
      | succ n => cases h
    · rintro ⟨front, back, heq, rfl⟩
      rw [(List.append_eq_nil_iff.mp heq.symm).1]
      rfl
  | cons c t ih =>
    rcases Nat.eq_zero_or_pos n with rfl | hpos
    · exact iff_of_true rfl ⟨[], c :: t, rfl, rfl⟩
    rcases Nat.lt_or_ge n (String.utf8EncodeChar c).length with hlt | hge
    · rw [encode_cons, not_isBoundary_of_lt t hpos hlt]
      refine iff_of_false Bool.false_ne_true ?_
      rintro ⟨_ | ⟨d, front⟩, back, heq, rfl⟩
      · exact absurd hpos (Nat.lt_irrefl 0)
      · obtain ⟨rfl, -⟩ := List.cons.inj heq
        rw [encode_cons, List.length_append] at hlt
        omega
    · obtain ⟨m, rfl⟩ := Nat.exists_eq_add_of_le hge
      rw [encode_cons, isBoundary_encodeChar_append, ih]
      constructor
      · rintro ⟨front, back, rfl, rfl⟩
        exact ⟨c :: front, back, rfl, by rw [encode_cons, List.length_append]⟩
      · rintro ⟨_ | ⟨d, front⟩, back, heq, hlen⟩
        · rw [encode_nil, List.length_nil] at hlen
          omega
        · obtain ⟨rfl, rfl⟩ := List.cons.inj heq
          rw [encode_cons, List.length_append] at hlen
          exact ⟨front, back, rfl, by omega⟩

/-- Text is cut into text exactly at its boundaries. -/
theorem isBoundary_iff (h : Valid bytes) : isBoundary bytes n = true ↔
    n ≤ bytes.length ∧ Valid (bytes.take n) ∧ Valid (bytes.drop n) := by
  obtain ⟨t, rfl⟩ := h
  rw [isBoundary_encode_iff]
  constructor
  · rintro ⟨front, back, rfl, rfl⟩
    rw [encode_append, List.take_left, List.drop_left, List.length_append]
    exact ⟨Nat.le_add_right _ _, valid_encode front, valid_encode back⟩
  · rintro ⟨hle, ⟨front, hfront⟩, back, hback⟩
    refine ⟨front, back, ?_, ?_⟩
    · have hall := List.take_append_drop n (encode t)
      rw [hfront, hback, ← encode_append] at hall
      exact Option.some.inj ((decode?_encode t).symm.trans (hall ▸ decode?_encode _))
    · rw [← hfront, List.length_take, Nat.min_eq_left hle]

theorem isBoundary_append (hx : Valid x) (hy : Valid y) : isBoundary (x ++ y) x.length = true := by
  rw [isBoundary_iff (hx.append hy), List.take_left, List.drop_left, List.length_append]
  exact ⟨Nat.le_add_right _ _, hx, hy⟩

theorem isBoundary_length (bytes : Bytes) : isBoundary bytes bytes.length = true := by
  simp [isBoundary]

/-- What stands between two boundaries. -/
theorem slice?_eq_some_iff : slice? bytes i j = some x ↔
    i ≤ j ∧ isBoundary bytes i = true ∧ isBoundary bytes j = true ∧ x = (bytes.take j).drop i := by
  unfold slice?
  split
  · rename_i h
    simp only [Bool.and_eq_true, decide_eq_true_eq] at h
    simp [h, eq_comm]
  · rename_i h
    simp only [Bool.and_eq_true, decide_eq_true_eq, and_assoc] at h
    exact iff_of_false (by simp) fun hs => h ⟨hs.1, hs.2.1, hs.2.2.1⟩

/-- A part of text between parts that are text can be cut out. -/
theorem slice?_append (hx : Valid x) (hy : Valid y) (hz : Valid z) :
    slice? (x ++ y ++ z) x.length (x.length + y.length) = some y := by
  rw [slice?_eq_some_iff]
  refine ⟨Nat.le_add_right _ _, ?_, ?_, ?_⟩
  · rw [List.append_assoc]
    exact isBoundary_append hx (hy.append hz)
  · rw [← List.length_append]
    exact isBoundary_append (hx.append hy) hz
  · rw [← List.length_append, List.take_left, List.drop_left]

theorem valid_of_slice? (h : Valid bytes) (hs : slice? bytes i j = some x) : Valid x := by
  obtain ⟨hij, hi, hj, rfl⟩ := slice?_eq_some_iff.mp hs
  obtain ⟨hlen, hfront, -⟩ := (isBoundary_iff h).mp hj
  refine ((isBoundary_iff hfront).mp ?_).2.2
  rcases Nat.lt_or_eq_of_le hij with hlt | rfl
  · have hget : (bytes.take j)[i]? = bytes[i]? := by rw [List.getElem?_take, if_pos hlt]
    have hin : bytes[i]? = some bytes[i] := List.getElem?_eq_getElem (by omega)
    unfold isBoundary at hi ⊢
    rw [hget]
    rwa [hin] at hi ⊢
  · have hend := isBoundary_length (bytes.take i)
    rwa [List.length_take, Nat.min_eq_left hlen] at hend

/-! ## Bytes below 128 -/

theorem encodeChar_of_lt (ha : a.toNat < 128) : String.utf8EncodeChar (Char.ofNat a.toNat) = [a] :=
  (Spells.one ha).encodeChar

theorem valid_singleton (ha : a.toNat < 128) : Valid [a] :=
  ⟨[Char.ofNat a.toNat], by rw [encode_cons, encodeChar_of_lt ha]; rfl⟩

/-- Around a byte below 128, text is cut into text. -/
theorem valid_append_ascii_iff (ha : a.toNat < 128) :
    Valid (x ++ a :: y) ↔ Valid x ∧ Valid y := by
  constructor
  · intro h
    have hcut : isBoundary (x ++ a :: y) x.length = true := by
      simp [isBoundary, not_isContinuation_of_lt ha]
    obtain ⟨-, hx, hy⟩ := (isBoundary_iff h).mp hcut
    rw [List.take_left] at hx
    rw [List.drop_left] at hy
    exact ⟨hx, (valid_singleton ha).append_iff.mp hy⟩
  · rintro ⟨hx, hy⟩
    exact hx.append ((valid_singleton ha).append hy)

theorem valid_of_ascii (hx : ∀ b ∈ x, b.toNat < 128) : Valid x := by
  induction x with
  | nil => exact valid_nil
  | cons b x ih =>
    obtain ⟨hb, hx⟩ := List.forall_mem_cons.mp hx
    exact (valid_singleton hb).append (ih hx)

/-- A byte below 128 in a text is a character. -/
theorem mem_encode_iff (ha : a.toNat < 128) : a ∈ encode t ↔ Char.ofNat a.toNat ∈ t := by
  constructor
  · intro h
    obtain ⟨x, y, heq⟩ := List.append_of_mem h
    have hdecode := congrArg decodeLossy heq
    rw [decodeLossy_encode, decodeLossy_append_ascii ha] at hdecode
    rw [hdecode]
    exact List.mem_append_right _ List.mem_cons_self
  · intro h
    refine mem_of_mem_decodeLossy ha ?_
    rwa [decodeLossy_encode]

end LineShell.Utf8
