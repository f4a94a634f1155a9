import LineShell.Text

/-!
# Decimal numerals

`Decimal.natural?` reads a run of digits, `Decimal.count?` a count of at most
`2 ^ 64 - 1`, and `Decimal.integer?` a signed number of 32 bits. `Decimal.ofNat` and
`Decimal.ofInt` write numbers without leading zeros, and `Decimal.pieces` writes the sign of a
number apart from its digits.
-/

namespace LineShell.Decimal

/-- The decimal digits of `n`. -/
def ofNat (n : Nat) : Text := Nat.toDigits 10 n

/-- The decimal digits of `n`, after a minus sign if it is negative. -/
def ofInt : Int → Text
  | .ofNat n => ofNat n
  | .negSucc n => '-' :: ofNat (n + 1)

/-- The minus sign of `n`, if it is negative, and its digits. -/
def pieces : Int → List Text
  | .ofNat n => [ofNat n]
  | .negSucc n => [['-'], ofNat (n + 1)]

/-- The value of a decimal digit. -/
def digit? (c : Char) : Option Nat :=
  if c.isDigit then some (c.toNat - '0'.toNat) else none

/-- The number with the decimal digits `t`, read onto `acc`. -/
def digits? : Nat → Text → Option Nat
  | acc, [] => some acc
  | acc, c :: t => do digits? (acc * 10 + (← digit? c)) t

/-- The number whose decimal digits are `t`, with at least one digit. -/
def natural? : Text → Option Nat
  | [] => none
  | t => digits? 0 t

/-- One more than the largest count. -/
def countBound : Nat := Nat.pow 2 64

/-- A count: an optional plus sign and digits, below `countBound`. -/
def count? (t : Text) : Option Nat := do
  let n ← natural? (match t with | '+' :: t => t | t => t)
  if n < countBound then some n else none

/-- A signed number: an optional sign and digits, within 32 bits. -/
def integer? : Text → Option Int
  | '-' :: t => do
    let n ← natural? t
    if n ≤ Nat.pow 2 31 then some (-(n : Int)) else none
  | '+' :: t => nonnegative? t
  | t => nonnegative? t
where
  /-- A number without a sign, below `2 ^ 31`. -/
  nonnegative? (t : Text) : Option Int := do
    let n ← natural? t
    if n < Nat.pow 2 31 then some (n : Int) else none

theorem count?_lt {t : Text} {n : Nat} (h : count? t = some n) : n < countBound := by
  unfold count? at h
  obtain ⟨m, _, h⟩ := Option.bind_eq_some_iff.mp h
  split at h
  · cases h; assumption
  · cases h

end LineShell.Decimal
