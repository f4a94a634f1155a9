import LineShell.Text.Utf8
import Mathlib.Data.List.Basic
import Mathlib.Tactic.Convert
import Mathlib.Tactic.SplitIfs

/-!
# Reading what was written

`Utf8.readChar` reads exactly what `String.utf8EncodeChar` writes (`readChar_eq_some_iff`), so
decoding undoes encoding (`decodeLossy_encode`).

A byte below 128 is a character by itself and belongs to no other, so a byte string can be
decoded in two parts around it (`decodeLossy_append_ascii`).
-/

namespace LineShell.Utf8

variable {b d : UInt8} {n acc v : Nat} {c : Char} {ds rest r : Bytes}

/-! ## Bytes as numbers -/

theorem isContinuation_iff : isContinuation b = true ↔ 128 ≤ b.toNat ∧ b.toNat < 192 := by
  simp only [isContinuation, Bool.and_eq_true, decide_eq_true_eq, UInt8.le_iff_toNat_le,
    UInt8.reduceToNat]
  omega

/-- What the first byte says, by its number. -/
theorem lead?_eq (b : UInt8) : lead? b =
    if b.toNat < 194 then none
    else if b.toNat < 224 then some (1, 0x80, 0xBF)
    else if b.toNat < 240 then
      some (2, if b.toNat = 224 then 0xA0 else 0x80, if b.toNat = 237 then 0x9F else 0xBF)
    else if b.toNat < 245 then
      some (3, if b.toNat = 240 then 0x90 else 0x80, if b.toNat = 244 then 0x8F else 0xBF)
    else none := by
  simp only [lead?, UInt8.lt_iff_toNat_lt, UInt8.le_iff_toNat_le, ← UInt8.toNat_inj,
    UInt8.reduceToNat]
  generalize b.toNat = x
  grind

/-- The number that continuation bytes add to `acc`. -/
def continued (acc : Nat) (ds : Bytes) : Nat := ds.foldl (fun acc d => acc * 64 + d.toNat % 64) acc

theorem readContinuation_eq_some_iff : readContinuation n acc rest = (some c, r) ↔
    ∃ ds, rest = ds ++ r ∧ ds.length = n ∧ (∀ d ∈ ds, isContinuation d = true) ∧
      c = Char.ofNat (continued acc ds) := by
  fun_induction readContinuation n acc rest with
  | case1 acc rest =>
    constructor
    · intro h
      obtain ⟨rfl, rfl⟩ : Char.ofNat acc = c ∧ rest = r := by simpa using h
      exact ⟨[], rfl, rfl, by simp, rfl⟩
    · rintro ⟨ds, rfl, hlen, -, rfl⟩
      obtain rfl := List.length_eq_zero_iff.mp hlen
      rfl
  | case2 n acc =>
    constructor
    · intro h
      cases h
    · rintro ⟨ds, heq, hlen, -⟩
      rw [(List.append_eq_nil_iff.mp heq.symm).1] at hlen
      cases hlen
  | case3 n acc d rest hd ih =>
    rw [ih]
    constructor
    · rintro ⟨ds, rfl, hlen, hds, rfl⟩
      exact ⟨d :: ds, rfl, by rw [List.length_cons, hlen], by simpa [hd] using hds, rfl⟩
    · rintro ⟨_ | ⟨e, ds⟩, heq, hlen, hds, rfl⟩
      · cases hlen
      · obtain ⟨rfl, rfl⟩ := List.cons.inj heq
        exact ⟨ds, rfl, Nat.succ.inj hlen, fun x hx => hds x (List.mem_cons_of_mem _ hx), rfl⟩
  | case4 n acc d rest hd =>
    constructor
    · intro h
      cases h
    · rintro ⟨_ | ⟨e, ds⟩, heq, hlen, hds, -⟩
      · cases hlen
      · obtain ⟨rfl, -⟩ := List.cons.inj heq
        exact absurd (hds d List.mem_cons_self) hd

/-! ## The bytes of a character -/

/-- The bytes that write the character with the number `v`. The bounds on a second byte keep a
number from having two spellings, and from being none of a character. -/
inductive Spells : Bytes → Nat → Prop
  | one {b : UInt8} (hb : b.toNat < 128) : Spells [b] b.toNat
  | two {b d : UInt8} (hb : 194 ≤ b.toNat ∧ b.toNat < 224) (hd : isContinuation d = true) :
      Spells [b, d] (b.toNat % 32 * 64 + d.toNat % 64)
  | three {b d e : UInt8} (hb : 224 ≤ b.toNat ∧ b.toNat < 240) (hd : isContinuation d = true)
      (hlow : b.toNat = 224 → 160 ≤ d.toNat) (hhigh : b.toNat = 237 → d.toNat < 160)
      (he : isContinuation e = true) :
      Spells [b, d, e] ((b.toNat % 16 * 64 + d.toNat % 64) * 64 + e.toNat % 64)
  | four {b d e f : UInt8} (hb : 240 ≤ b.toNat ∧ b.toNat < 245) (hd : isContinuation d = true)
      (hlow : b.toNat = 240 → 144 ≤ d.toNat) (hhigh : b.toNat = 244 → d.toNat < 144)
      (he : isContinuation e = true) (hf : isContinuation f = true) :
      Spells [b, d, e, f]
        (((b.toNat % 8 * 64 + d.toNat % 64) * 64 + e.toNat % 64) * 64 + f.toNat % 64)

theorem val_ofNat_of_isValidChar (h : v.isValidChar) : (Char.ofNat v).val.toNat = v := by
  rw [Char.ofNat, dif_pos h]
  rfl

theorem ofNat_eq_of_toNat_eq {k : Nat} (h : b.toNat = k) : UInt8.ofNat k = b := by
  rw [← h]
  exact UInt8.ofNat_toNat

theorem Spells.isValidChar (h : Spells ds v) : v.isValidChar := by
  unfold Nat.isValidChar
  cases h with
  | one hb => omega
  | two hb hd => omega
  | three hb hd hlow hhigh he =>
    rw [isContinuation_iff] at hd he
    omega
  | four hb hd hlow hhigh he hf =>
    rw [isContinuation_iff] at hd he hf
    omega

theorem Spells.encodeChar (h : Spells ds v) : String.utf8EncodeChar (Char.ofNat v) = ds := by
  simp only [String.utf8EncodeChar, val_ofNat_of_isValidChar h.isValidChar]
  cases h with
  | one hb => rw [if_pos (by omega), UInt8.ofNat_toNat]
  | @two b d hb hd =>
    rw [isContinuation_iff] at hd
    rw [if_neg (by omega), if_pos (by omega), ofNat_eq_of_toNat_eq (b := b) (by omega),
      ofNat_eq_of_toNat_eq (b := d) (by omega)]
  | @three b d e hb hd hlow hhigh he =>
    rw [isContinuation_iff] at hd he
    rw [if_neg (by omega), if_neg (by omega), if_pos (by omega),
      ofNat_eq_of_toNat_eq (b := b) (by omega), ofNat_eq_of_toNat_eq (b := d) (by omega),
      ofNat_eq_of_toNat_eq (b := e) (by omega)]
  | @four b d e f hb hd hlow hhigh he hf =>
    rw [isContinuation_iff] at hd he hf
    rw [if_neg (by omega), if_neg (by omega), if_neg (by omega),
      ofNat_eq_of_toNat_eq (b := b) (by omega), ofNat_eq_of_toNat_eq (b := d) (by omega),
      ofNat_eq_of_toNat_eq (b := e) (by omega), ofNat_eq_of_toNat_eq (b := f) (by omega)]

theorem spells_encodeChar (c : Char) : Spells (String.utf8EncodeChar c) c.toNat := by
  have hvalid : c.val.toNat < 55296 ∨ 57343 < c.val.toNat ∧ c.val.toNat < 1114112 := c.valid
  have hof : ∀ k, k < 256 → (UInt8.ofNat k).toNat = k := fun k hk => UInt8.toNat_ofNat_of_lt hk
  rw [← Char.toNat_val]
  unfold String.utf8EncodeChar
  generalize c.val.toNat = v at hvalid
  dsimp only
  split
  · have hs := Spells.one (b := UInt8.ofNat v) (by rw [hof v (by omega)]; omega)
    rwa [hof v (by omega)] at hs
  split
  · have hb := hof (v / 64 % 32 + 192) (by omega)
    have hd := hof (v % 64 + 128) (by omega)
    have hs := Spells.two (b := UInt8.ofNat (v / 64 % 32 + 192)) (d := UInt8.ofNat (v % 64 + 128))
      (by omega) (isContinuation_iff.mpr (by omega))
    rw [hb, hd] at hs
    convert hs using 1
    omega
  split
  · have hb := hof (v / 4096 % 16 + 224) (by omega)
    have hd := hof (v / 64 % 64 + 128) (by omega)
    have he := hof (v % 64 + 128) (by omega)
    have hs := Spells.three (b := UInt8.ofNat (v / 4096 % 16 + 224))
      (d := UInt8.ofNat (v / 64 % 64 + 128)) (e := UInt8.ofNat (v % 64 + 128)) (by omega)
      (isContinuation_iff.mpr (by omega)) (by omega) (by omega) (isContinuation_iff.mpr (by omega))
    rw [hb, hd, he] at hs
    convert hs using 1
    omega
  · have hb := hof (v / 262144 % 8 + 240) (by omega)
    have hd := hof (v / 4096 % 64 + 128) (by omega)
    have he := hof (v / 64 % 64 + 128) (by omega)
    have hf := hof (v % 64 + 128) (by omega)
    have hs := Spells.four (b := UInt8.ofNat (v / 262144 % 8 + 240))
      (d := UInt8.ofNat (v / 4096 % 64 + 128)) (e := UInt8.ofNat (v / 64 % 64 + 128))
      (f := UInt8.ofNat (v % 64 + 128)) (by omega) (isContinuation_iff.mpr (by omega)) (by omega)
      (by omega) (isContinuation_iff.mpr (by omega)) (isContinuation_iff.mpr (by omega))
    rw [hb, hd, he, hf] at hs
    convert hs using 1
    omega

/-- Behind a first byte that says so, continuation bytes are read. -/
theorem readChar_of_lead? {lo hi : UInt8} (h : lead? b = some (n, lo, hi)) (hlo : lo ≤ d)
    (hhi : d ≤ hi) (rest : Bytes) : readChar b (d :: rest) =
      readContinuation (n - 1) (leadPayload n b * 64 + d.toNat % 64) rest := by
  have hb : ¬b < 0x80 := by
    rw [lead?_eq] at h
    intro hlt
    have hlt' : b.toNat < 128 := by simpa [UInt8.lt_iff_toNat_lt] using hlt
    rw [if_pos (by omega)] at h
    cases h
  unfold readChar
  simp [hb, h, hlo, hhi]

theorem Spells.readChar_append (h : Spells (b :: ds) v) (rest : Bytes) :
    readChar b (ds ++ rest) = (some (Char.ofNat v), rest) := by
  cases h with
  | one hb =>
    have hlt : b < 0x80 := by simpa [UInt8.lt_iff_toNat_lt] using hb
    unfold readChar
    rw [if_pos hlt, List.nil_append]
  | @two _ d hb hd =>
    rw [isContinuation_iff] at hd
    have hlead : lead? b = some (1, 0x80, 0xBF) := by
      rw [lead?_eq, if_neg (by omega), if_pos (by omega)]
    rw [List.cons_append, readChar_of_lead? hlead]
    · rfl
    · simp only [UInt8.le_iff_toNat_le, UInt8.reduceToNat]
      omega
    · simp only [UInt8.le_iff_toNat_le, UInt8.reduceToNat]
      omega
  | @three _ d e hb hd hlow hhigh he =>
    have hlead : lead? b = some (2, if b.toNat = 224 then 0xA0 else 0x80,
        if b.toNat = 237 then 0x9F else 0xBF) := by
      rw [lead?_eq, if_neg (by omega), if_neg (by omega), if_pos (by omega)]
    rw [isContinuation_iff] at hd
    rw [List.cons_append, readChar_of_lead? hlead, readContinuation_eq_some_iff]
    · exact ⟨[e], rfl, rfl, by simpa using he, rfl⟩
    · rw [UInt8.le_iff_toNat_le]
      split
      · exact hlow ‹_›
      · exact hd.1
    · rw [UInt8.le_iff_toNat_le]
      split
      · exact Nat.le_of_lt_succ (hhigh ‹_›)
      · exact Nat.le_of_lt_succ hd.2
  | @four _ d e f hb hd hlow hhigh he hf =>
    have hlead : lead? b = some (3, if b.toNat = 240 then 0x90 else 0x80,
        if b.toNat = 244 then 0x8F else 0xBF) := by
      rw [lead?_eq, if_neg (by omega), if_neg (by omega), if_neg (by omega), if_pos (by omega)]
    rw [isContinuation_iff] at hd
    rw [List.cons_append, readChar_of_lead? hlead, readContinuation_eq_some_iff]
    · exact ⟨[e, f], rfl, rfl, by simpa using ⟨he, hf⟩, rfl⟩
    · rw [UInt8.le_iff_toNat_le]
      split
      · exact hlow ‹_›
      · exact hd.1
    · rw [UInt8.le_iff_toNat_le]
      split
      · exact Nat.le_of_lt_succ (hhigh ‹_›)
      · exact Nat.le_of_lt_succ hd.2

theorem exists_spells_of_readChar (h : readChar b rest = (some c, r)) :
    ∃ ds v, rest = ds ++ r ∧ Spells (b :: ds) v ∧ c = Char.ofNat v := by
  unfold readChar at h
  split at h
  · rename_i hb
    obtain ⟨rfl, rfl⟩ : Char.ofNat b.toNat = c ∧ rest = r := by simpa using h
    exact ⟨[], b.toNat, rfl, .one (by simpa [UInt8.lt_iff_toNat_lt] using hb), rfl⟩
  · split at h
    · cases h
    · cases h
    · rename_i n lo hi d rest hlead
      split at h
      · rename_i hbounds
        simp only [Bool.and_eq_true, decide_eq_true_eq, UInt8.le_iff_toNat_le] at hbounds
        obtain ⟨ds, rfl, hlen, hds, rfl⟩ := readContinuation_eq_some_iff.mp h
        refine ⟨d :: ds, _, rfl, ?_, rfl⟩
        rw [lead?_eq] at hlead
        split at hlead
        · cases hlead
        split at hlead
        · cases hlead
          obtain rfl := List.length_eq_zero_iff.mp hlen
          exact .two (by omega) (isContinuation_iff.mpr ⟨hbounds.1, Nat.lt_succ_of_le hbounds.2⟩)
        split at hlead
        · cases hlead
          obtain ⟨e, rfl⟩ := List.length_eq_one_iff.mp hlen
          simp only [apply_ite UInt8.toNat, UInt8.reduceToNat] at hbounds
          refine .three (by omega) (isContinuation_iff.mpr ?_) ?_ ?_ (hds e (by simp)) <;>
            split_ifs at hbounds <;> omega
        split at hlead
        · cases hlead
          obtain ⟨e, f, rfl⟩ := List.length_eq_two.mp hlen
          simp only [apply_ite UInt8.toNat, UInt8.reduceToNat] at hbounds
          refine .four (by omega) (isContinuation_iff.mpr ?_) ?_ ?_ (hds e (by simp))
            (hds f (by simp)) <;> split_ifs at hbounds <;> omega
        · cases hlead
      · cases h

/-- A character is read where its bytes stand. -/
theorem readChar_eq_some_iff :
    readChar b rest = (some c, r) ↔ b :: rest = String.utf8EncodeChar c ++ r := by
  constructor
  · intro h
    obtain ⟨ds, v, rfl, hs, rfl⟩ := exists_spells_of_readChar h
    rw [hs.encodeChar]
    rfl
  · intro h
    have hs := spells_encodeChar c
    rcases hc : String.utf8EncodeChar c with _ | ⟨d, ds⟩
    · rw [hc] at hs
      cases hs
    · rw [hc] at hs h
      rw [List.cons_append] at h
      obtain ⟨rfl, rfl⟩ := List.cons.inj h
      rw [hs.readChar_append, Char.ofNat_toNat]

/-! ## Decoding -/

theorem decodeLossy_cons (b : UInt8) (rest : Bytes) : decodeLossy (b :: rest) =
    (readChar b rest).1.getD replacement :: decodeLossy (readChar b rest).2 := by
  rw [decodeLossy]

/-- The bytes of a character are read as that character, whatever stands behind them. -/
theorem exists_readChar_append (c : Char) : ∃ b ds, String.utf8EncodeChar c = b :: ds ∧
    ∀ rest, readChar b (ds ++ rest) = (some c, rest) := by
  rcases hc : String.utf8EncodeChar c with _ | ⟨b, ds⟩
  · have hs := spells_encodeChar c
    rw [hc] at hs
    cases hs
  · refine ⟨b, ds, rfl, fun rest => ?_⟩
    rw [readChar_eq_some_iff, hc]
    rfl

theorem decodeLossy_encodeChar_append (c : Char) (rest : Bytes) :
    decodeLossy (String.utf8EncodeChar c ++ rest) = c :: decodeLossy rest := by
  obtain ⟨b, ds, hc, hr⟩ := exists_readChar_append c
  rw [hc, List.cons_append, decodeLossy_cons, hr]
  rfl

theorem encode_cons (c : Char) (t : Text) : encode (c :: t) = String.utf8EncodeChar c ++ encode t :=
  rfl

/-- Decoding undoes encoding. -/
theorem decodeLossy_encode (t : Text) : decodeLossy (encode t) = t := by
  induction t with
  | nil => rw [encode_nil, decodeLossy]
  | cons c t ih => rw [encode_cons, decodeLossy_encodeChar_append, ih]

theorem decode?_cons (b : UInt8) (rest : Bytes) : decode? (b :: rest) =
    (readChar b rest).1.bind fun c => (decode? (readChar b rest).2).bind fun t => some (c :: t) := by
  rw [decode?]
  rfl

theorem decode?_encode (t : Text) : decode? (encode t) = some t := by
  induction t with
  | nil => rw [encode_nil, decode?]
  | cons c t ih =>
    obtain ⟨b, ds, hc, hr⟩ := exists_readChar_append c
    rw [encode_cons, hc, List.cons_append, decode?_cons, hr]
    simp only [Option.bind_some, ih]

/-! ## Cutting at a character of one byte -/

variable {a : UInt8}

theorem not_isContinuation_of_lt (ha : a.toNat < 128) : isContinuation a = false := by
  rw [← Bool.not_eq_true, isContinuation_iff]
  omega

theorem readContinuation_append_ascii (ha : a.toNat < 128) (n acc : Nat) (x rest : Bytes) :
    readContinuation n acc (x ++ a :: rest) =
      ((readContinuation n acc x).1, (readContinuation n acc x).2 ++ a :: rest) := by
  fun_induction readContinuation n acc x with
  | case1 acc x => rfl
  | case2 n acc => simp [readContinuation, not_isContinuation_of_lt ha]
  | case3 n acc d x hd ih => rw [List.cons_append, readContinuation, if_pos hd, ih]
  | case4 n acc d x hd =>
    rw [List.cons_append, readContinuation, if_neg hd]

theorem le_lo_of_lead? {lo hi : UInt8} (h : lead? b = some (n, lo, hi)) : 128 ≤ lo.toNat := by
  rw [lead?_eq] at h
  split_ifs at h <;> cases h <;> decide

/-- A character ends in front of a byte below 128, if not before. -/
theorem readChar_append_ascii (ha : a.toNat < 128) (b : UInt8) (x rest : Bytes) :
    readChar b (x ++ a :: rest) = ((readChar b x).1, (readChar b x).2 ++ a :: rest) := by
  unfold readChar
  split
  · rfl
  rcases hlead : lead? b with _ | ⟨n, lo, hi⟩
  · rfl
  cases x with
  | nil =>
    have hlo : ¬lo ≤ a := by
      rw [UInt8.le_iff_toNat_le]
      have := le_lo_of_lead? hlead
      omega
    simp [hlo]
  | cons d x =>
    simp only [List.cons_append]
    split
    · exact readContinuation_append_ascii ha _ _ x rest
    · rfl

/-- Bytes can be decoded in two parts around one below 128. -/
theorem decodeLossy_append_ascii (ha : a.toNat < 128) (x rest : Bytes) :
    decodeLossy (x ++ a :: rest) = decodeLossy x ++ Char.ofNat a.toNat :: decodeLossy rest := by
  fun_induction decodeLossy x with
  | case1 =>
    have hr : readChar a rest = (some (Char.ofNat a.toNat), rest) :=
      (Spells.one ha).readChar_append rest
    rw [List.nil_append, decodeLossy_cons, hr]
    rfl
  | case2 b x ih =>
    rw [List.cons_append, decodeLossy_cons, readChar_append_ascii ha, ih]
    rfl

theorem suffix_readContinuation (n acc : Nat) (x : Bytes) : (readContinuation n acc x).2 <:+ x := by
  fun_induction readContinuation n acc x with
  | case1 acc x => exact List.suffix_refl x
  | case2 n acc => exact List.suffix_refl []
  | case3 n acc d x hd ih => exact ih.trans (List.suffix_cons d x)
  | case4 n acc d x hd => exact List.suffix_refl _

theorem suffix_readChar (b : UInt8) (x : Bytes) : (readChar b x).2 <:+ x := by
  unfold readChar
  split
  · exact List.suffix_refl x
  · split
    · exact List.suffix_refl _
    · exact List.suffix_refl _
    · split
      · exact (suffix_readContinuation _ _ _).trans (List.suffix_cons _ _)
      · exact List.suffix_refl _

/-- A character of one byte is only decoded from its byte. -/
theorem mem_of_mem_decodeLossy (ha : a.toNat < 128) {x : Bytes}
    (h : Char.ofNat a.toNat ∈ decodeLossy x) : a ∈ x := by
  fun_induction decodeLossy x with
  | case1 => cases h
  | case2 b x ih =>
    rcases List.mem_cons.mp h with h | h
    · rcases hr : readChar b x with ⟨_ | c, r⟩ <;> rw [hr] at h
      · -- the replacement is no character of one byte
        have hval := congrArg Char.toNat h
        rw [← Char.toNat_val, val_ofNat_of_isValidChar (.inl (by omega))] at hval
        have : replacement.toNat = 65533 := rfl
        simp only [Option.getD_none] at hval
        omega
      · obtain rfl : Char.ofNat a.toNat = c := h
        rw [readChar_eq_some_iff, (Spells.one ha).encodeChar] at hr
        rw [hr]
        exact List.mem_cons_self
    · exact List.mem_cons_of_mem b ((suffix_readChar b x).mem (ih h))

end LineShell.Utf8
