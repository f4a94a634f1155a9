import LineShell.Proofs.Utf8

/-!
# What cannot be read

`Utf8.readChar` fails exactly where no character stands, and skips a `Fault` there : the longest
start of a character, or one byte if no character begins so (`readChar_eq_none_iff`).

So a byte string is cut into characters and faults (`Pieces`), and its text has one `replacement`
for every fault (`Pieces.decodeLossy_eq`). A character is as long in the text as in the bytes. A
fault has at most three bytes and its replacement has three, so a text is longer than the bytes it
was read from by what the faults are short of three (`Pieces.length_encode`).
-/

namespace LineShell.Utf8

variable {b d : UInt8} {n acc : Nat} {lo hi : UInt8} {c : Char} {bytes ds rest r x y : Bytes}

/-! ## The starts of characters -/

/-- Bytes with which some character begins. -/
def Begins (x : Bytes) : Prop := ∃ c, x <+: String.utf8EncodeChar c

theorem readContinuation_eq_none_iff : readContinuation n acc rest = (none, r) ↔
    ∃ ds, rest = ds ++ r ∧ ds.length < n ∧ (∀ d ∈ ds, isContinuation d = true) ∧
      ∀ d ∈ r.head?, isContinuation d = false := by
  fun_induction readContinuation n acc rest with
  | case1 acc rest =>
    constructor
    · intro h
      cases h
    · rintro ⟨ds, -, hlen, -⟩
      cases hlen
  | case2 n acc =>
    constructor
    · intro h
      obtain rfl : r = [] := by simpa using h.symm
      exact ⟨[], rfl, Nat.succ_pos n, by simp, by simp⟩
    · rintro ⟨ds, heq, -⟩
      rw [(List.append_eq_nil_iff.mp heq.symm).2]
  | case3 n acc d rest hd ih =>
    rw [ih]
    constructor
    · rintro ⟨ds, rfl, hlen, hds, hr⟩
      exact ⟨d :: ds, rfl, Nat.succ_lt_succ hlen, by simpa [hd] using hds, hr⟩
    · rintro ⟨_ | ⟨e, ds⟩, heq, hlen, hds, hr⟩
      · obtain rfl : d :: rest = r := heq
        simp [hd] at hr
      · obtain ⟨rfl, rfl⟩ := List.cons.inj heq
        exact ⟨ds, rfl, Nat.lt_of_succ_lt_succ hlen,
          fun x hx => hds x (List.mem_cons_of_mem _ hx), hr⟩
  | case4 n acc d rest hd =>
    constructor
    · intro h
      obtain rfl : d :: rest = r := by simpa using h
      exact ⟨[], rfl, Nat.succ_pos n, by simp, by simpa using hd⟩
    · rintro ⟨_ | ⟨e, ds⟩, heq, -, hds, -⟩
      · obtain rfl : d :: rest = r := heq
        rfl
      · obtain ⟨rfl, -⟩ := List.cons.inj heq
        exact absurd (hds d List.mem_cons_self) hd

/-- The bytes of a character of several bytes : a first one that says how many follow and between
which two the next one lies, and continuation bytes. -/
theorem exists_encodeChar_eq_iff : (∃ c, String.utf8EncodeChar c = b :: d :: ds) ↔
    ∃ n lo hi, lead? b = some (n, lo, hi) ∧ lo ≤ d ∧ d ≤ hi ∧ ds.length = n - 1 ∧
      ∀ e ∈ ds, isContinuation e = true := by
  constructor
  · rintro ⟨c, hc⟩
    have hread : readChar b (d :: ds) = (some c, []) := by
      rw [readChar_eq_some_iff, hc, List.append_nil]
    unfold readChar at hread
    split at hread
    · cases hread
    · split at hread
      · cases hread
      · cases hread
      · rename_i n lo hi e es hlead heq
        obtain ⟨rfl, rfl⟩ := List.cons.inj heq
        split at hread
        · rename_i hbounds
          simp only [Bool.and_eq_true, decide_eq_true_eq] at hbounds
          obtain ⟨es, rfl, hlen, hes, -⟩ := readContinuation_eq_some_iff.mp hread
          exact ⟨n, lo, hi, hlead, hbounds.1, hbounds.2, by simpa using hlen, by simpa using hes⟩
        · cases hread
  · rintro ⟨n, lo, hi, hlead, hlo, hhi, hlen, hds⟩
    have hread := readChar_of_lead? hlead hlo hhi ds
    rw [readContinuation_eq_some_iff.mpr ⟨ds, (List.append_nil ds).symm, hlen, hds, rfl⟩,
      readChar_eq_some_iff, List.append_nil] at hread
    exact ⟨_, hread.symm⟩

/-- No character is the start of another. -/
theorem eq_of_prefix_encodeChar {c c' : Char}
    (h : String.utf8EncodeChar c <+: String.utf8EncodeChar c') : c = c' := by
  obtain ⟨r, hr⟩ := h
  have hc := decodeLossy_encodeChar_append c r
  rw [hr, ← List.append_nil (String.utf8EncodeChar c'), decodeLossy_encodeChar_append] at hc
  exact (List.cons.inj hc).1.symm

/-! ## Faults -/

/-- Bytes that are skipped together in front of `rest`. -/
structure Fault (x rest : Bytes) : Prop where
  ne_nil : x ≠ []
  /-- No character stands here. -/
  unread : ∀ c, ¬String.utf8EncodeChar c <+: x ++ rest
  /-- A character begins so, if there is more than one byte. -/
  begins : x.length = 1 ∨ Begins x
  longest : ∀ y, y <+: x ++ rest → Begins y → y.length ≤ x.length

theorem Fault.length_le (h : Fault x rest) : 1 ≤ x.length ∧ x.length ≤ 3 := by
  refine ⟨List.length_pos_iff.mpr h.ne_nil, ?_⟩
  rcases h.begins with hone | ⟨c, hc⟩
  · omega
  · -- four bytes would be all of a character
    have hfour : (String.utf8EncodeChar c).length ≤ 4 := by
      rw [String.length_utf8EncodeChar]
      exact c.utf8Size_le_four
    have hne : x.length ≠ (String.utf8EncodeChar c).length := by
      intro heq
      rw [hc.eq_of_length heq] at h
      exact h.unread c (List.prefix_append _ rest)
    have := hc.length_le
    omega

/-- The bytes skipped at one place are known by the bytes that stand there. -/
theorem Fault.length_eq (h : Fault x rest) (h' : Fault y r) (heq : x ++ rest = y ++ r) :
    x.length = y.length := by
  have hle : ∀ {u v s t : Bytes}, Fault u s → Fault v t → u ++ s = v ++ t →
      v.length ≤ u.length := by
    intro u v s t hu hv huv
    rcases hv.begins with hone | hbegins
    · have := hu.length_le
      omega
    · exact hu.longest v (huv ▸ List.prefix_append v t) hbegins
  exact Nat.le_antisymm (hle h' h heq.symm) (hle h h' heq)

/-- A fault of one byte : no character begins with two of the bytes that stand here. -/
theorem fault_singleton (hunread : ∀ c, ¬String.utf8EncodeChar c <+: b :: rest)
    (htwo : ∀ d r, rest = d :: r → ¬Begins [b, d]) : Fault [b] rest where
  ne_nil := by simp
  unread := hunread
  begins := .inl rfl
  longest := by
    rintro y ⟨t, ht⟩ ⟨c, hc⟩
    rcases y with _ | ⟨e, _ | ⟨f, y⟩⟩
    · simp
    · simp
    · obtain ⟨rfl, hrest⟩ := List.cons.inj ht
      refine absurd ⟨c, ?_⟩ (htwo f (y ++ t) hrest.symm)
      exact (List.prefix_append [e, f] y).trans hc

/-- A fault of several bytes : the start of a character, up to a byte that does not go on with
it. -/
theorem fault_of_lead? (hunread : ∀ c, ¬String.utf8EncodeChar c <+: b :: d :: (ds ++ r))
    (hlead : lead? b = some (n, lo, hi)) (hlo : lo ≤ d) (hhi : d ≤ hi) (hlen : ds.length < n - 1)
    (hds : ∀ e ∈ ds, isContinuation e = true) (hr : ∀ e ∈ r.head?, isContinuation e = false) :
    Fault (b :: d :: ds) r where
  ne_nil := by simp
  unread := hunread
  begins := by
    obtain ⟨more, hmore, hlength⟩ : ∃ more : Bytes,
        (∀ e ∈ more, isContinuation e = true) ∧ (ds ++ more).length = n - 1 := by
      refine ⟨List.replicate (n - 1 - ds.length) 0x80, fun e he => ?_, ?_⟩
      · rw [List.eq_of_mem_replicate he]
        rfl
      · rw [List.length_append, List.length_replicate]
        omega
    have hall : ∀ e ∈ ds ++ more, isContinuation e = true := by
      intro e he
      exact (List.mem_append.mp he).elim (hds e) (hmore e)
    obtain ⟨c, hc⟩ := exists_encodeChar_eq_iff.mpr ⟨n, lo, hi, hlead, hlo, hhi, hlength, hall⟩
    exact .inr ⟨c, more, hc.symm⟩
  longest := by
    rintro y ⟨t, ht⟩ ⟨c, hc⟩
    by_contra hlt
    obtain ⟨e, s, rfl, hpre⟩ : ∃ e s, r = e :: s ∧ b :: d :: ds ++ [e] <+: y := by
      rcases List.append_eq_append_iff.mp ht with ⟨u, hu, -⟩ | ⟨u, rfl, hu⟩
      · rw [hu] at hlt
        simp at hlt
      · rcases u with _ | ⟨e, u⟩
        · simp at hlt
        · exact ⟨e, u ++ t, hu, by simp⟩
    obtain ⟨u, hu⟩ := hpre.trans hc
    obtain ⟨-, -, -, -, -, -, -, hall⟩ := exists_encodeChar_eq_iff.mp ⟨c, by simpa using hu.symm⟩
    have hcont := hall e (by simp)
    rw [hr e rfl] at hcont
    cases hcont

theorem fault_of_readChar (h : readChar b bytes = (none, r)) :
    ∃ x, b :: bytes = x ++ r ∧ Fault x r := by
  have hunread : ∀ c, ¬String.utf8EncodeChar c <+: b :: bytes := by
    rintro c ⟨s, hs⟩
    rw [readChar_eq_some_iff.mpr hs.symm] at h
    cases h
  unfold readChar at h
  split at h
  · cases h
  rcases hlead : lead? b with _ | ⟨n, lo, hi⟩ <;> simp only [hlead] at h
  · -- no character of several bytes begins with `b`
    obtain rfl : bytes = r := by simpa using h
    refine ⟨[b], rfl, fault_singleton hunread fun d s _ hbegins => ?_⟩
    obtain ⟨c, t, ht⟩ := hbegins
    obtain ⟨n, lo, hi, hsome, -⟩ := exists_encodeChar_eq_iff.mp ⟨c, ht.symm⟩
    rw [hlead] at hsome
    cases hsome
  rcases bytes with _ | ⟨d, rest⟩ <;> simp only at h
  · obtain rfl : r = [] := by simpa using h.symm
    exact ⟨[b], rfl, fault_singleton hunread fun d s hs => by cases hs⟩
  · split at h
    · rename_i hbounds
      simp only [Bool.and_eq_true, decide_eq_true_eq] at hbounds
      obtain ⟨ds, rfl, hlen, hds, hr⟩ := readContinuation_eq_none_iff.mp h
      exact ⟨b :: d :: ds, rfl, fault_of_lead? hunread hlead hbounds.1 hbounds.2 hlen hds hr⟩
    · rename_i hbounds
      obtain rfl : d :: rest = r := by simpa using h
      refine ⟨[b], rfl, fault_singleton hunread fun e s hs hbegins => ?_⟩
      obtain ⟨rfl, rfl⟩ := List.cons.inj hs
      obtain ⟨c, t, ht⟩ := hbegins
      obtain ⟨n', lo', hi', hlead', hlo, hhi, -⟩ := exists_encodeChar_eq_iff.mp ⟨c, ht.symm⟩
      rw [hlead] at hlead'
      cases hlead'
      exact hbounds (by simp [hlo, hhi])

/-- Where no character stands, a fault is skipped. -/
theorem readChar_eq_none_iff :
    readChar b bytes = (none, r) ↔ ∃ x, b :: bytes = x ++ r ∧ Fault x r := by
  refine ⟨fault_of_readChar, ?_⟩
  rintro ⟨x, heq, hx⟩
  rcases hread : readChar b bytes with ⟨_ | c, s⟩
  · obtain ⟨y, heq', hy⟩ := fault_of_readChar hread
    have hxy : x ++ r = y ++ s := heq ▸ heq'
    rw [(List.append_inj hxy (hx.length_eq hy hxy)).2]
  · rw [readChar_eq_some_iff, heq] at hread
    exact absurd ⟨s, hread.symm⟩ (hx.unread c)

/-! ## Bytes in pieces -/

/-- A character, or bytes at which none stands. -/
inductive Piece where
  | char (c : Char)
  | fault (x : Bytes)
deriving DecidableEq

/-- What is read from a piece. -/
def Piece.text : Piece → Char
  | char c => c
  | fault _ => replacement

/-- The bytes by which the text of pieces is longer than the pieces. -/
def growth : List Piece → Nat
  | [] => 0
  | .char _ :: pieces => growth pieces
  | .fault x :: pieces => 3 - x.length + growth pieces

/-- Bytes cut into pieces. -/
inductive Pieces : List Piece → Bytes → Prop
  | nil : Pieces [] []
  | char {pieces : List Piece} {rest : Bytes} (c : Char) (h : Pieces pieces rest) :
      Pieces (.char c :: pieces) (String.utf8EncodeChar c ++ rest)
  | fault {pieces : List Piece} {x rest : Bytes} (hx : Fault x rest) (h : Pieces pieces rest) :
      Pieces (.fault x :: pieces) (x ++ rest)

variable {pieces : List Piece}

theorem exists_pieces (bytes : Bytes) : ∃ pieces, Pieces pieces bytes := by
  fun_induction decodeLossy bytes with
  | case1 => exact ⟨[], .nil⟩
  | case2 b bytes ih =>
    rcases hread : readChar b bytes with ⟨_ | c, r⟩ <;> rw [hread] at ih <;> obtain ⟨ps, hps⟩ := ih
    · obtain ⟨x, heq, hx⟩ := readChar_eq_none_iff.mp hread
      exact ⟨.fault x :: ps, heq ▸ .fault hx hps⟩
    · rw [readChar_eq_some_iff] at hread
      exact ⟨.char c :: ps, hread ▸ .char c hps⟩

/-- Every piece is read as one character. -/
theorem Pieces.decodeLossy_eq (h : Pieces pieces bytes) : decodeLossy bytes = pieces.map Piece.text := by
  induction h with
  | nil => rw [decodeLossy, List.map_nil]
  | char c h ih => rw [decodeLossy_encodeChar_append, ih, List.map_cons, Piece.text]
  | @fault ps x rest hx h ih =>
    rcases x with _ | ⟨b, x⟩
    · exact absurd rfl hx.ne_nil
    · have hread : readChar b (x ++ rest) = (none, rest) := readChar_eq_none_iff.mpr ⟨b :: x, rfl, hx⟩
      rw [List.cons_append, decodeLossy_cons, hread, ih]
      rfl

/-- A text is longer than its bytes by what its replacements are longer than the faults. -/
theorem Pieces.length_encode (h : Pieces pieces bytes) :
    (encode (pieces.map Piece.text)).length = bytes.length + growth pieces := by
  induction h with
  | nil => rfl
  | char c h ih =>
    simp only [encode, List.map_cons, List.flatMap_cons, List.length_append, Piece.text,
      growth] at ih ⊢
    omega
  | @fault ps x rest hx h ih =>
    have hlen := hx.length_le
    have hthree : (String.utf8EncodeChar replacement).length = 3 := by decide
    simp only [encode, List.map_cons, List.flatMap_cons, List.length_append, Piece.text, growth,
      hthree] at ih ⊢
    omega

/-- No piece is read as more than three times its bytes. -/
theorem Pieces.growth_le (h : Pieces pieces bytes) :
    growth pieces ≤ 2 * bytes.length := by
  induction h with
  | nil => exact Nat.zero_le _
  | char c h ih =>
    rw [growth, List.length_append]
    omega
  | fault hx h ih =>
    have hlen := hx.length_le
    rw [growth, List.length_append]
    omega

end LineShell.Utf8
