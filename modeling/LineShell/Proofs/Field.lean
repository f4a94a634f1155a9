import LineShell.Text.Blank
import LineShell.Text.Decimal
import Mathlib.Data.List.TakeWhile

/-!
# Fields

A field of a line has blanks around it, and may be a numeral.

`Text.trim_eq_iff` : trimming finds the one part of a text that has only blanks around it and is
neither begun nor ended by one (`Text.Trimmed`). `Decimal.count?_eq_some_iff` : the counts that can
be read are the `Decimal.Counts`, and `Decimal.integer?_eq_some_iff` : the signed numbers are the
`Decimal.Integers`. What is written as the digits of a number is a `Decimal.Numeral` of it
(`Decimal.numeral_ofNat`).
-/

namespace LineShell

/-! ## Trimming -/

namespace Text

section

variable {α : Type} {p q : α → Bool}

theorem dropEndWhile_append {t : List α} (s : List α) (h : ∀ c ∈ t, p c = true) :
    dropEndWhile p (s ++ t) = dropEndWhile p s := by
  rw [dropEndWhile, List.reverse_append, List.dropWhile_append_of_pos (by simpa using h),
    dropEndWhile]

/-- What is trimmed off does not depend on what was cut off the end before. -/
theorem trimWhile_dropEndWhile (h : ∀ c, q c = true → p c = true) (t : List α) :
    trimWhile p (dropEndWhile q t) = trimWhile p t := by
  have hcut := dropEndWhile_append_eq q t
  have hall : ∀ c ∈ (t.reverse.takeWhile q).reverse, p c = true := by
    intro c hc
    exact h c (List.all_eq_true.mp List.all_takeWhile c (List.mem_reverse.mp hc))
  generalize dropEndWhile q t = s at hcut ⊢
  generalize (t.reverse.takeWhile q).reverse = u at hcut hall
  subst hcut
  rw [trimWhile, trimWhile, List.dropWhile_append]
  split
  · rename_i hs
    rw [List.isEmpty_iff.mp hs, List.dropWhile_eq_nil_iff.2 hall]
  · rw [dropEndWhile_append _ hall]

/-- What is left begins with no element that is dropped. -/
theorem head?_dropWhile (p : α → Bool) (t : List α) : ∀ c ∈ (t.dropWhile p).head?, p c = false := by
  intro c hc
  have h := List.head?_dropWhile_not p t
  rwa [Option.mem_def.mp hc] at h

theorem getLast?_dropEndWhile (p : α → Bool) (t : List α) :
    ∀ c ∈ (dropEndWhile p t).getLast?, p c = false := by
  rw [dropEndWhile, List.getLast?_reverse]
  exact head?_dropWhile p t.reverse

theorem dropWhile_eq_self {t : List α} (h : ∀ c ∈ t.head?, p c = false) : t.dropWhile p = t := by
  rcases t with _ | ⟨c, t⟩
  · rfl
  · rw [List.dropWhile_cons, h c rfl]
    rfl

theorem dropEndWhile_eq_self {t : List α} (h : ∀ c ∈ t.getLast?, p c = false) :
    dropEndWhile p t = t := by
  rw [dropEndWhile, dropWhile_eq_self (by simpa using h), List.reverse_reverse]

end

variable {t s before after : Text}

/-- Nothing but blanks. -/
def IsBlank (t : Text) : Prop := ∀ c ∈ t, isBlank c = true

theorem isBlank_nil : IsBlank [] := fun _ hc => absurd hc List.not_mem_nil

theorem isBlank_of_isDigit {c : Char} (h : c.isDigit = true) : isBlank c = false := by
  have hdigit : 48 ≤ c.val.toNat ∧ c.val.toNat ≤ 57 := by
    simpa [Char.isDigit, UInt32.le_iff_toNat_le] using h
  simp only [isBlank, Bool.or_eq_false_iff, Bool.and_eq_false_iff, decide_eq_false_iff_not,
    ← UInt32.toNat_inj, UInt32.le_iff_toNat_le, UInt32.reduceToNat]
  omega

theorem isBlank_takeWhile (t : Text) : IsBlank (t.takeWhile isBlank) :=
  fun c hc => List.all_eq_true.mp List.all_takeWhile c hc

/-- `s` is `t` without the blanks around it. -/
inductive Trimmed : Text → Text → Prop
  | intro {before s after : Text} (hbefore : IsBlank before) (hafter : IsBlank after)
      (hhead : ∀ c ∈ s.head?, isBlank c = false) (hlast : ∀ c ∈ s.getLast?, isBlank c = false) :
      Trimmed (before ++ s ++ after) s

theorem trim_append (hbefore : IsBlank before) (hafter : IsBlank after)
    (hhead : ∀ c ∈ s.head?, isBlank c = false) (hlast : ∀ c ∈ s.getLast?, isBlank c = false) :
    trim (before ++ s ++ after) = s := by
  rw [trim, trimWhile, List.append_assoc, List.dropWhile_append_of_pos hbefore]
  rcases s with _ | ⟨c, s⟩
  · rw [List.nil_append, List.dropWhile_eq_nil_iff.mpr hafter, dropEndWhile_nil]
  · rw [dropWhile_eq_self (by simpa using hhead), dropEndWhile_append _ hafter,
      dropEndWhile_eq_self hlast]

theorem trim_eq_iff : trim t = s ↔ Trimmed t s := by
  constructor
  · rintro rfl
    have hend : trim t ++ ((t.dropWhile isBlank).reverse.takeWhile isBlank).reverse =
        t.dropWhile isBlank := dropEndWhile_append_eq isBlank _
    have hhead : ∀ c ∈ (trim t).head?, isBlank c = false := by
      intro c hc
      refine head?_dropWhile isBlank t c ?_
      rw [← hend, List.head?_append, Option.mem_def.mp hc]
      rfl
    have hafter : IsBlank ((t.dropWhile isBlank).reverse.takeWhile isBlank).reverse :=
      fun c hc => isBlank_takeWhile _ c (List.mem_reverse.mp hc)
    have htrimmed := Trimmed.intro (isBlank_takeWhile t) hafter hhead
      (getLast?_dropEndWhile isBlank _)
    rwa [List.append_assoc, hend, List.takeWhile_append_dropWhile] at htrimmed
  · rintro ⟨hbefore, hafter, hhead, hlast⟩
    exact trim_append hbefore hafter hhead hlast

theorem trimmed_trim (t : Text) : Trimmed t (trim t) := trim_eq_iff.mp rfl

/-- What is trimmed does not depend on blanks behind it. -/
theorem trim_append_of_isBlank (t : Text) {after : Text} (h : IsBlank after) :
    trim (t ++ after) = trim t := by
  have ht := trimmed_trim t
  generalize trim t = s at ht ⊢
  obtain ⟨hbefore, hblanks, hhead, hlast⟩ := ht
  rw [List.append_assoc]
  exact trim_append hbefore (List.forall_mem_append.mpr ⟨hblanks, h⟩) hhead hlast

end Text

/-! ## Numerals -/

namespace Decimal

variable {t : Text} {n acc : Nat} {i : Int}

/-- `t` is decimal digits, one at least, of the number `n`. -/
structure Numeral (t : Text) (n : Nat) : Prop where
  ne_nil : t ≠ []
  digits : ∀ c ∈ t, c.isDigit = true
  value : n = Nat.ofDigitChars 10 t 0

/-- `t` is a numeral below `countBound`, that is of 64 bits, with or without a plus sign in front of
it. -/
inductive Counts : Text → Nat → Prop
  | plain {t : Text} {n : Nat} (h : Numeral t n) (hlt : n < countBound) : Counts t n
  | plus {t : Text} {n : Nat} (h : Numeral t n) (hlt : n < countBound) : Counts ('+' :: t) n

/-- The integers of 32 bits. -/
def IsShort (i : Int) : Prop := -2147483648 ≤ i ∧ i ≤ 2147483647

/-- `t` is a numeral, with or without a sign in front of it, of an integer of 32 bits. -/
inductive Integers : Text → Int → Prop
  | plain {t : Text} {n : Nat} (h : Numeral t n) (hlt : IsShort n) : Integers t n
  | plus {t : Text} {n : Nat} (h : Numeral t n) (hlt : IsShort n) : Integers ('+' :: t) n
  | minus {t : Text} {n : Nat} (h : Numeral t n) (hlt : IsShort (-n)) : Integers ('-' :: t) (-n)

theorem digits?_eq_some_iff : digits? acc t = some n ↔
    (∀ c ∈ t, c.isDigit = true) ∧ n = Nat.ofDigitChars 10 t acc := by
  induction t generalizing acc with
  | nil => simpa [digits?] using eq_comm
  | cons c t ih =>
    rw [Nat.ofDigitChars_cons, Nat.mul_comm 10 acc]
    by_cases hc : c.isDigit = true
    · simp [digits?, digit?, hc, ih]
    · simp [digits?, digit?, hc]

theorem natural?_eq_some_iff : natural? t = some n ↔ Numeral t n := by
  rcases t with _ | ⟨c, t⟩
  · refine iff_of_false (by simp [natural?]) fun h => h.ne_nil rfl
  · rw [natural?, digits?_eq_some_iff]
    · exact ⟨fun h => ⟨by simp, h.1, h.2⟩, fun h => ⟨h.digits, h.value⟩⟩
    · simp

/-- No numeral begins with a sign. -/
theorem not_numeral_sign {c : Char} (hc : c = '+' ∨ c = '-') : ¬Numeral (c :: t) n := by
  intro h
  have hdigit := h.digits c List.mem_cons_self
  rcases hc with rfl | rfl <;> revert hdigit <;> decide

/-- What is read behind the sign. -/
theorem bounded_eq_some_iff {α : Type} {p : Nat → Prop} [DecidablePred p] {f : Nat → α} {a : α} :
    ((natural? t).bind fun m => if p m then some (f m) else none) = some a ↔
      ∃ m, Numeral t m ∧ p m ∧ f m = a := by
  rw [Option.bind_eq_some_iff]
  constructor
  · rintro ⟨m, hm, h⟩
    split at h
    · cases h
      exact ⟨m, natural?_eq_some_iff.mp hm, ‹_›, rfl⟩
    · cases h
  · rintro ⟨m, h, hp, rfl⟩
    exact ⟨m, natural?_eq_some_iff.mpr h, if_pos hp⟩

theorem count?_eq_some_iff : count? t = some n ↔ Counts t n := by
  by_cases hplus : ∃ u, t = '+' :: u
  · obtain ⟨u, rfl⟩ := hplus
    refine bounded_eq_some_iff.trans ⟨fun ⟨m, h, hlt, heq⟩ => heq ▸ .plus h hlt, ?_⟩
    rintro (⟨h, -⟩ | ⟨h, hlt⟩)
    · exact absurd h (not_numeral_sign (.inl rfl))
    · exact ⟨n, h, hlt, rfl⟩
  · have hcount : count? t =
        (natural? t).bind fun m => if m < countBound then some m else none := by
      unfold count?
      split
      · exact absurd ⟨_, rfl⟩ hplus
      · rfl
    rw [hcount]
    refine bounded_eq_some_iff.trans ⟨fun ⟨m, h, hlt, heq⟩ => heq ▸ .plain h hlt, ?_⟩
    rintro (⟨h, hlt⟩ | ⟨h, -⟩)
    · exact ⟨n, h, hlt, rfl⟩
    · exact absurd ⟨_, rfl⟩ hplus

theorem isShort_natCast_iff : IsShort n ↔ n < Nat.pow 2 31 := by
  have hpow : Nat.pow 2 31 = 2147483648 := by decide
  rw [IsShort, hpow]
  omega

theorem isShort_neg_natCast_iff : IsShort (-n) ↔ n ≤ Nat.pow 2 31 := by
  have hpow : Nat.pow 2 31 = 2147483648 := by decide
  rw [IsShort, hpow]
  omega

theorem nonnegative?_eq_some_iff :
    integer?.nonnegative? t = some i ↔ ∃ n : Nat, Numeral t n ∧ IsShort n ∧ (n : Int) = i := by
  simp only [isShort_natCast_iff]
  exact bounded_eq_some_iff

theorem integer?_eq_some_iff : integer? t = some i ↔ Integers t i := by
  unfold integer?
  split
  · rename_i t
    refine bounded_eq_some_iff.trans ⟨fun ⟨n, h, hle, heq⟩ => ?_, ?_⟩
    · exact heq ▸ .minus h (isShort_neg_natCast_iff.mpr hle)
    · rintro (⟨h, -⟩ | _ | ⟨h, hlt⟩)
      · exact absurd h (not_numeral_sign (.inr rfl))
      · exact ⟨_, h, isShort_neg_natCast_iff.mp hlt, rfl⟩
  · rename_i t
    refine nonnegative?_eq_some_iff.trans ⟨fun ⟨n, h, hlt, heq⟩ => heq ▸ .plus h hlt, ?_⟩
    rintro (⟨h, -⟩ | ⟨h, hlt⟩)
    · exact absurd h (not_numeral_sign (.inl rfl))
    · exact ⟨_, h, hlt, rfl⟩
  · rename_i hminus hplus
    refine nonnegative?_eq_some_iff.trans ⟨fun ⟨n, h, hlt, heq⟩ => heq ▸ .plain h hlt, ?_⟩
    rintro (⟨h, hlt⟩ | ⟨h, hlt⟩ | ⟨h, hlt⟩)
    · exact ⟨_, h, hlt, rfl⟩
    · exact absurd rfl (hplus _)
    · exact absurd rfl (hminus _)

theorem numeral_ofNat (n : Nat) : Numeral (ofNat n) n where
  ne_nil := Nat.toDigits_ne_nil
  digits c hc := Nat.isDigit_of_mem_toDigits (by decide) (by decide) hc
  value := Nat.ofDigitChars_ten_toDigits.symm

/-- What is written for an integer of 32 bits is a numeral of it, with a minus sign where it is
needed. -/
theorem integers_ofInt (h : IsShort i) : Integers (ofInt i) i := by
  cases i with
  | ofNat n => exact .plain (numeral_ofNat n) h
  | negSucc n => exact .minus (numeral_ofNat (n + 1)) h

theorem Integers.mem (h : Integers t i) : ∀ c ∈ t, c.isDigit = true ∨ c = '+' ∨ c = '-' := by
  cases h with
  | plain h _ => exact fun c hc => .inl (h.digits c hc)
  | plus h _ =>
    exact List.forall_mem_cons.mpr ⟨.inr (.inl rfl), fun c hc => .inl (h.digits c hc)⟩
  | minus h _ =>
    exact List.forall_mem_cons.mpr ⟨.inr (.inr rfl), fun c hc => .inl (h.digits c hc)⟩

/-- No sign and no digit is a blank. -/
theorem Integers.isBlank_eq_false (h : Integers t i) : ∀ c ∈ t, Text.isBlank c = false := by
  intro c hc
  rcases h.mem c hc with hdigit | rfl | rfl
  · exact Text.isBlank_of_isDigit hdigit
  · rfl
  · rfl

end Decimal

end LineShell
